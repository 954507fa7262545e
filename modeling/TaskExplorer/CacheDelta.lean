import TaskExplorer.VariantCache

/-!
# Deltas add up

A reader that merges what each round sends, deletes what it reports as removed
and forgets when it is told to, holds what was written.
-/

namespace TaskExplorer.CacheDelta
open Codec OrderedMap VariantFormat VariantContainer
open VariantValue VariantCache
set_option linter.unusedSimpArgs false

/-! ## The reader -/

/-- `ReadRawIMap`, up to where it would throw. -/
def read_imap (packed : Packed) : List (UInt32 × Packed) :=
  if packed.type = VAR_TYPE_INDEX then
    (raw_entries .index packed.payload).1.filterMap (fun pair =>
      match pair.1 with
      | .id index => some (index, pair.2)
      | _ => none)
  else []

/-- An entry of the reader, and the scope of the rounds it came with. -/
structure Held where
  scope : UInt64
  fields : Fields

abbrev Reader := OrdMap UInt32 Held

def fieldsAt (reader : Reader) (key : UInt32) : Fields := ((reader.get key).map Held.fields).getD .empty

def merge_fields (fields : Fields) (pairs : List (UInt32 × Packed)) : Fields :=
  pairs.foldl (fun fields pair => fields.insert pair.1 pair.2) fields

def merge (scope : UInt64) (reader : Reader) (changed : Packed) : Reader :=
  (read_imap changed).foldl
    (fun reader pair => reader.insert pair.1 ⟨scope, merge_fields (fieldsAt reader pair.1) (read_imap pair.2)⟩) reader

def discard (reader : Reader) (removed : List UInt32) : Reader := removed.foldl OrdMap.erase reader

/-! ## Rounds -/

section Run
variable {K : Type} [LinearOrder K]

inductive Call (K : Type) where
  | write (id : K) (field : UInt32) (value : Packed)
  | keep (id : K)

def Call.id : Call K → K
  | .write id _ _ => id
  | .keep id => id

inductive Event (K : Type) where
  | round (scope : UInt64) (calls : List (Call K))
  | clear
  | clearScope (scope : UInt64)

/-- The payloads written for each id since it appeared, in order. -/
abbrev Writes (K : Type) := K → List (UInt32 × Bytes)

structure World (K : Type) [LinearOrder K] where
  cache : Cache K := {}
  reader : Reader := .empty
  writes : Writes K := fun _ => []
  assigned : Nat := 0

def perform (state : Cache K × Writes K) : Call K → Cache K × Writes K
  | .write id field value =>
    (write id field value state.1,
      fun other => if other = id then state.2 other ++ [(field, value.payload)] else state.2 other)
  | .keep id => (keep id state.1, state.2)

/-- The state in which `FinishRound` is called. -/
def recorded (scope : UInt64) (calls : List (Call K)) (world : World K) : Cache K × Writes K :=
  calls.foldl perform (begin_round scope world.cache, world.writes)

/-- Nothing is on record for an id that is not remembered. -/
def forget (cache : Cache K) (writes : Writes K) : Writes K := fun id => if (cache.entries.get id).isSome then writes id else []

def World.step (world : World K) : Event K → World K
  | .round scope calls =>
    let (cache, writes) := recorded scope calls world
    match finish_round numeric cache with
    | .ok (changed, removed, after) =>
      { cache := after
        reader := discard (merge scope world.reader ⟨changed.type, changed.payload⟩) removed
        writes := forget after writes
        assigned := world.assigned + assignments cache }
    | .error _ => world
  | .clear => { world with cache := clear world.cache, reader := .empty, writes := fun _ => [] }
  | .clearScope scope =>
    { world with
      cache := clear_scope scope world.cache
      reader := world.reader.filter (fun _ held => held.scope ≠ scope)
      writes := forget (clear_scope scope world.cache) world.writes }

def run (events : List (Event K)) : World K := events.foldl World.step {}

/-! ## What the reader should hold -/

/-- The last payload of every field. -/
def latest (writes : List (UInt32 × Bytes)) : OrdMap UInt32 Bytes :=
  writes.foldl (fun fields pair => fields.insert pair.1 pair.2) .empty

/-- One entry for each id that is remembered and was written, and no other. -/
structure Converged (world : World K) : Prop where
  injective : ∀ id other key, world.cache.table.keys.get id = some key → world.cache.table.keys.get other = some key → id = other
  held : ∀ id, (world.cache.entries.get id).isSome → world.writes id ≠ [] →
    ∃ key held, world.cache.table.keys.get id = some key ∧ world.reader.get key = some held ∧
      held.fields.mapValues (fun _ value => value.payload) = latest (world.writes id)
  only : ∀ key held, world.reader.get key = some held →
    ∃ id, world.cache.table.keys.get id = some key ∧ (world.cache.entries.get id).isSome ∧ world.writes id ≠ []

/-- Every id is mentioned under one scope only. -/
def OneScope (scopeOf : K → UInt64) (events : List (Event K)) : Prop :=
  ∀ scope calls, Event.round scope calls ∈ events → ∀ call ∈ calls, scopeOf call.id = scope

def ValuesEncodable (events : List (Event K)) : Prop :=
  ∀ scope calls, Event.round scope calls ∈ events → ∀ id field value, Call.write id field value ∈ calls → Encodable value

/-- No entry that is sent, and no container of them, reaches 2^32 bytes. -/
def Fits (world : World K) : Event K → Prop
  | .round scope calls =>
    (∀ pair ∈ (recorded scope calls world).1.changed.entries, (fieldsBuffer pair.2).length < 2 ^ 32) ∧
      (entriesBuffer ((outcome numeric (recorded scope calls world).1).sent.map (fun pair => (Key.id pair.1, pair.2)))).length < 2 ^ 32
  | _ => True

def AllFit (world : World K) : List (Event K) → Prop
  | [] => True
  | event :: rest => Fits world event ∧ AllFit (world.step event) rest

/-! ## What the reader makes of a round -/

variable {fields : Fields}

theorem read_imap_packFields (encodable : ∀ pair ∈ fields.entries, Encodable pair.2)
    (fits : (fieldsBuffer fields).length < 2 ^ 32) : read_imap (packFields fields) = fields.entries := by
  have walked := raw_entries_written .index (fields.entries.map (fun pair => (Key.id pair.1, pair.2))) (by
    intro pair member
    obtain ⟨source, found, rfl⟩ := List.mem_map.mp member
    exact ⟨trivial, encodable source found⟩)
  rw [List.flatMap_map] at walked
  rw [packFields, cut_short fits, read_imap, if_pos rfl, fieldsBuffer, walked]
  simp [List.filterMap_map, Function.comp_def]

variable {sent : List (UInt32 × Fields)} {scope : UInt64} {world : World K}

theorem read_imap_sent (fits : (entriesBuffer (sent.map (fun pair => (Key.id pair.1, pair.2)))).length < 2 ^ 32) :
    read_imap ⟨VAR_TYPE_INDEX, cut (entriesBuffer (sent.map (fun pair => (Key.id pair.1, pair.2))))⟩ =
      sent.map (fun pair => (pair.1, packFields pair.2)) := by
  have keys : ∀ pair ∈ sent.map (fun pair => (Key.id pair.1, pair.2)), KeyFits .index pair.1 ∧ pair.1.stored = pair.1 := by
    intro pair member
    obtain ⟨source, -, rfl⟩ := List.mem_map.mp member
    exact ⟨trivial, rfl⟩
  rw [read_imap, if_pos rfl, raw_entries_entriesBuffer keys fits]
  simp [List.filterMap_map, Function.comp_def]

theorem get_merge_fields (base fields : Fields) (field : UInt32) :
    (merge_fields base fields.entries).get field = (fields.get field).or (base.get field) := by
  have grow (pairs : List (UInt32 × Packed)) (distinct : (pairs.map Prod.fst).Nodup) (base : Fields) :
      (merge_fields base pairs).get field = (find field pairs).or (base.get field) := by
    induction pairs generalizing base with
    | nil => rfl
    | cons pair rest ih =>
      obtain ⟨unique, others⟩ := List.nodup_cons.mp distinct
      have later := ih others (base.insert pair.1 pair.2)
      rw [merge_fields, List.foldl_cons]
      refine later.trans ?_
      rw [OrdMap.get_insert, find]
      by_cases same : pair.1 = field
      · have absent : find field rest = none := by
          cases present : find field rest with
          | none => rfl
          | some value => exact absurd (List.mem_map.mpr ⟨_, find_mem present, same.symm⟩) unique
        simp [same, absent]
      · simp [same]
  exact grow fields.entries (OrdMap.keys_nodup fields) base

/-- Merging entry after entry; what the reader has read them as. -/
def mergeAll (scope : UInt64) (reader : Reader) (sent : List (UInt32 × Fields)) : Reader :=
  sent.foldl (fun reader pair => reader.insert pair.1 ⟨scope, merge_fields (fieldsAt reader pair.1) pair.2.entries⟩) reader

theorem merge_eq {reader : Reader} (encodable : ∀ pair ∈ sent, ∀ entry ∈ pair.2.entries, Encodable entry.2)
    (entriesFit : ∀ pair ∈ sent, (fieldsBuffer pair.2).length < 2 ^ 32)
    (fits : (entriesBuffer (sent.map (fun pair => (Key.id pair.1, pair.2)))).length < 2 ^ 32) :
    merge scope reader ⟨VAR_TYPE_INDEX, cut (entriesBuffer (sent.map (fun pair => (Key.id pair.1, pair.2))))⟩ =
      mergeAll scope reader sent := by
  rw [merge, read_imap_sent fits, List.foldl_map, mergeAll]
  apply List.foldl_ext
  intro reader pair member
  rw [read_imap_packFields (encodable pair member) (entriesFit pair member)]

theorem get_mergeAll_other {reader : Reader} {key : UInt32} (absent : key ∉ sent.map Prod.fst) :
    (mergeAll scope reader sent).get key = reader.get key := by
  induction sent generalizing reader with
  | nil => rfl
  | cons pair rest ih =>
    obtain ⟨other, later⟩ := not_or.mp (fun member => absent (List.mem_cons.mpr member))
    refine (ih later).trans ?_
    simp [Ne.symm other]

theorem get_mergeAll_sent {reader : Reader} (distinct : (sent.map Prod.fst).Nodup) {key : UInt32}
    (member : (key, fields) ∈ sent) :
    (mergeAll scope reader sent).get key = some ⟨scope, merge_fields (fieldsAt reader key) fields.entries⟩ := by
  induction sent generalizing reader with
  | nil => cases member
  | cons pair rest ih =>
    obtain ⟨unique, others⟩ := List.nodup_cons.mp distinct
    rcases List.mem_cons.mp member with rfl | later
    · refine (get_mergeAll_other unique).trans ?_
      simp
    · have other : pair.1 ≠ key := fun same => unique (same ▸ List.mem_map.mpr ⟨_, later, rfl⟩)
      refine (ih others later).trans ?_
      simp [fieldsAt, other]

theorem get_discard (reader : Reader) (removed : List UInt32) (key : UInt32) :
    (discard reader removed).get key = if key ∈ removed then none else reader.get key := by
  induction removed generalizing reader with
  | nil => rfl
  | cons first rest ih =>
    refine (ih (reader.erase first)).trans ?_
    rw [OrdMap.get_erase]
    by_cases same : first = key
    · simp [same]
    · simp [same, Ne.symm same]

theorem get_latest_append (writes : List (UInt32 × Bytes)) (field sought : UInt32) (payload : Bytes) :
    (latest (writes ++ [(field, payload)])).get sought = if field = sought then some payload else (latest writes).get sought := by
  rw [latest, List.foldl_append]
  exact OrdMap.get_insert _ field sought payload

/-! ## The invariant -/

/-- What the reader has of an id. -/
def known (reader : Reader) (table : WireTable K) (id : K) : Fields :=
  match table.keys.get id with
  | some key => fieldsAt reader key
  | none => .empty

/-- An entry is what the reader has of it, with the changes of the round on top. -/
structure Recording (scopeOf : K → UInt64) (reader : Reader) (state : Cache K × Writes K) : Prop where
  table : state.1.table.Sound
  scopes : ∀ id entry, state.1.entries.get id = some entry → entry.scope = scopeOf id
  shown : ∀ id entry, state.1.entries.get id = some entry → ∀ field,
    (entry.fields.get field).map Packed.payload = (latest (state.2 id)).get field
  encodable : ∀ id entry, state.1.entries.get id = some entry → ∀ field value, entry.fields.get field = some value → Encodable value
  absent : ∀ id, state.1.entries.get id = none → state.2 id = [] ∧ state.1.table.keys.get id = none ∧ state.1.changed.get id = none
  changed : ∀ id fields, state.1.changed.get id = some fields →
    scopeOf id = state.1.scope ∧ (∃ entry, state.1.entries.get id = some entry ∧ entry.seen = true) ∧
      ∃ field value, fields.get field = some value
  pending : ∀ id entry, state.1.entries.get id = some entry → ∀ field,
    entry.fields.get field = ((state.1.changed.get id).bind (fun fields => fields.get field)).or
      ((known reader state.1.table id).get field)
  owned : ∀ key held, reader.get key = some held → ∃ id, state.1.table.keys.get id = some key ∧ held.scope = scopeOf id
  wired : ∀ id key, state.1.table.keys.get id = some key →
    ∃ held, reader.get key = some held ∧ ∃ field value, held.fields.get field = some value

private theorem recording_start (scopeOf : K → UInt64) : Recording scopeOf .empty (({} : Cache K), fun _ => []) := by
  constructor <;> simp
  exact ⟨by simp, by simp⟩

private theorem recording_begin {scopeOf : K → UInt64} {reader : Reader} {cache : Cache K} {writes : Writes K}
    (recording : Recording scopeOf reader (cache, writes)) (quiet : ∀ id, cache.changed.get id = none) (scope : UInt64) :
    Recording scopeOf reader (begin_round scope cache, writes) := by
  have entries (id : K) (entry : SEntry) (found : (begin_round scope cache).entries.get id = some entry) :
      ∃ old, cache.entries.get id = some old ∧ entry.scope = old.scope ∧ entry.fields = old.fields := by
    simp only [begin_round, OrdMap.get_mapValues, Option.map_eq_some_iff] at found
    obtain ⟨old, held, rfl⟩ := found
    refine ⟨old, held, ?_⟩
    split <;> exact ⟨rfl, rfl⟩
  refine ⟨recording.table, ?_, ?_, ?_, ?_, ?_, ?_, recording.owned, recording.wired⟩
  · intro id entry found
    obtain ⟨old, held, inScope, -⟩ := entries id entry found
    exact inScope.trans (recording.scopes id old held)
  · intro id entry found field
    obtain ⟨old, held, -, same⟩ := entries id entry found
    rw [same]
    exact recording.shown id old held field
  · intro id entry found
    obtain ⟨old, held, -, same⟩ := entries id entry found
    rw [same]
    exact recording.encodable id old held
  · intro id missing
    have before : cache.entries.get id = none := by simpa [begin_round] using missing
    exact ⟨(recording.absent id before).1, (recording.absent id before).2.1, rfl⟩
  · intro id fields impossible
    simp [begin_round] at impossible
  · intro id entry found field
    obtain ⟨old, held, -, same⟩ := entries id entry found
    have pending := recording.pending id old held field
    rw [quiet id] at pending
    rw [same]
    exact pending

/-- What `m_Entries[Id]` gives is covered, also where it is a new entry. -/
private theorem entryOf_covered {scopeOf : K → UInt64} {reader : Reader} {cache : Cache K} {writes : Writes K}
    (recording : Recording scopeOf reader (cache, writes)) (id : K) :
    (∀ field, ((entryOf id cache).fields.get field).map Packed.payload = (latest (writes id)).get field) ∧
      (∀ field value, (entryOf id cache).fields.get field = some value → Encodable value) ∧
      ∀ field, (entryOf id cache).fields.get field = ((cache.changed.get id).bind (fun fields => fields.get field)).or
        ((known reader cache.table id).get field) := by
  cases held : cache.entries.get id with
  | some entry =>
    simp only [entryOf, held, Option.getD_some]
    exact ⟨recording.shown id entry held, recording.encodable id entry held, recording.pending id entry held⟩
  | none =>
    obtain ⟨unwritten, unknown, unchanged⟩ := recording.absent id held
    simp only at unwritten unknown unchanged
    simp [entryOf, held, unwritten, unchanged, known, unknown, latest]

/-- A call replaces the entry of its id by one that is seen, in the round's
    scope, and covered again. -/
private theorem recording_replace {scopeOf : K → UInt64} {reader : Reader} {cache after : Cache K} {writes later : Writes K}
    (recording : Recording scopeOf reader (cache, writes)) {id : K} (inScope : scopeOf id = cache.scope) {entry : SEntry}
    (entries : after.entries = cache.entries.insert id entry) (table : after.table = cache.table) (scope : after.scope = cache.scope)
    (seen : entry.seen = true) (placed : entry.scope = cache.scope)
    (others : ∀ other, other ≠ id → after.changed.get other = cache.changed.get other ∧ later other = writes other)
    (changed : ∀ fields, after.changed.get id = some fields → ∃ field value, fields.get field = some value)
    (shown : ∀ field, (entry.fields.get field).map Packed.payload = (latest (later id)).get field)
    (encodable : ∀ field value, entry.fields.get field = some value → Encodable value)
    (pending : ∀ field, entry.fields.get field = ((after.changed.get id).bind (fun fields => fields.get field)).or
      ((known reader cache.table id).get field)) :
    Recording scopeOf reader (after, later) := by
  have split (other : K) (found : SEntry) (held : after.entries.get other = some found) :
      (other = id ∧ found = entry) ∨ (other ≠ id ∧ cache.entries.get other = some found) := by
    rw [entries, OrdMap.get_insert] at held
    by_cases same : id = other
    · rw [if_pos same] at held
      exact Or.inl ⟨same.symm, (Option.some.inj held).symm⟩
    · rw [if_neg same] at held
      exact Or.inr ⟨Ne.symm same, held⟩
  refine ⟨table ▸ recording.table, ?_, ?_, ?_, ?_, ?_, ?_, ?_, ?_⟩
  · intro other found held
    rcases split other found held with ⟨rfl, rfl⟩ | ⟨-, before⟩
    · exact placed.trans inScope.symm
    · exact recording.scopes other found before
  · intro other found held field
    rcases split other found held with ⟨rfl, rfl⟩ | ⟨different, before⟩
    · exact shown field
    · show _ = (latest (later other)).get field
      rw [(others other different).2]
      exact recording.shown other found before field
  · intro other found held
    rcases split other found held with ⟨rfl, rfl⟩ | ⟨-, before⟩
    · exact encodable
    · exact recording.encodable other found before
  · intro other missing
    have different : other ≠ id := by
      rintro rfl
      simp [entries] at missing
    have before : cache.entries.get other = none := by
      rw [entries, OrdMap.get_insert, if_neg (Ne.symm different)] at missing
      exact missing
    obtain ⟨unwritten, unknown, unchanged⟩ := recording.absent other before
    exact ⟨(others other different).2.trans unwritten, by rw [table]; exact unknown, (others other different).1.trans unchanged⟩
  · intro other fields found
    by_cases same : other = id
    · subst same
      refine ⟨by rw [scope]; exact inScope, ⟨entry, by simp [entries], seen⟩, changed fields found⟩
    · replace found : after.changed.get other = some fields := found
      rw [(others other same).1] at found
      obtain ⟨there, ⟨old, held, mentioned⟩, filled⟩ := recording.changed other fields found
      refine ⟨by rw [scope]; exact there, ⟨old, ?_, mentioned⟩, filled⟩
      rw [entries, OrdMap.get_insert, if_neg (Ne.symm same)]
      exact held
  · intro other found held field
    simp only [table]
    rcases split other found held with ⟨rfl, rfl⟩ | ⟨different, before⟩
    · exact pending field
    · show _ = ((after.changed.get other).bind _).or _
      rw [(others other different).1]
      exact recording.pending other found before field
  · intro key held found
    rw [table]
    exact recording.owned key held found
  · intro other key found
    rw [table] at found
    exact recording.wired other key found

private theorem recording_perform {scopeOf : K → UInt64} {reader : Reader} {state : Cache K × Writes K}
    (recording : Recording scopeOf reader state) {call : Call K} (inScope : scopeOf call.id = state.1.scope)
    (encodable : ∀ id field value, call = .write id field value → Encodable value) :
    Recording scopeOf reader (perform state call) ∧ (perform state call).1.scope = state.1.scope := by
  obtain ⟨cache, writes⟩ := state
  cases call with
  | keep id =>
    obtain ⟨shown, valid, pending⟩ := entryOf_covered recording id
    refine ⟨recording_replace recording inScope rfl rfl rfl rfl rfl (fun _ _ => ⟨rfl, rfl⟩) ?_ shown valid pending, rfl⟩
    intro fields found
    exact (recording.changed id fields found).2.2
  | write id field value =>
    obtain ⟨shown, valid, pending⟩ := entryOf_covered recording id
    replace inScope : scopeOf id = cache.scope := inScope
    show Recording scopeOf reader (write id field value cache, fun other =>
      if other = id then writes other ++ [(field, value.payload)] else writes other) ∧ (write id field value cache).scope = cache.scope
    have quietWrites : ∀ other, other ≠ id →
        (if other = id then writes other ++ [(field, value.payload)] else writes other) = writes other :=
      fun other different => if_neg different
    by_cases same : compare_to ((entryOf id cache).fields.get field) value
    · -- an unchanged payload: the entry is mentioned, and nothing travels
      have unchanged : write id field value cache =
          { cache with entries := cache.entries.insert id { entryOf id cache with seen := true, scope := cache.scope } } := by
        simp [write, same]
      rw [unchanged]
      refine ⟨recording_replace recording inScope rfl rfl rfl rfl rfl (fun other different => ⟨rfl, quietWrites other different⟩)
        (fun fields found => (recording.changed id fields found).2.2) ?_ valid pending, rfl⟩
      intro sought
      rw [if_pos rfl, get_latest_append, ← shown sought]
      by_cases equal : field = sought
      · subst equal
        cases old : (entryOf id cache).fields.get field with
        | none => simp [old, compare_to] at same
        | some stored =>
          have bytes : stored.payload = value.payload := by simpa [old, compare_to] using same
          simp [old, bytes]
      · rw [if_neg equal]
    · have stored : write id field value cache =
          { cache with
            entries := cache.entries.insert id
              { entryOf id cache with
                seen := true, scope := cache.scope, fields := (entryOf id cache).fields.insert field value }
            changed := cache.changed.insert id (((cache.changed.get id).getD .empty).insert field value) } := by
        simp [write, same]
      rw [stored]
      refine ⟨recording_replace recording inScope rfl rfl rfl rfl rfl ?_ ?_ ?_ ?_ ?_, rfl⟩
      · intro other different
        exact ⟨by simp [Ne.symm different], quietWrites other different⟩
      · intro fields found
        simp only [OrdMap.get_insert, if_pos] at found
        cases found
        exact ⟨field, value, by simp⟩
      · intro sought
        rw [if_pos rfl, get_latest_append, OrdMap.get_insert, ← shown sought]
        by_cases equal : field = sought
        · simp [equal]
        · simp [equal]
      · intro sought found held
        simp only [OrdMap.get_insert] at held
        by_cases equal : field = sought
        · rw [if_pos equal] at held
          cases held
          exact encodable id field value rfl
        · rw [if_neg equal] at held
          exact valid sought found held
      · intro sought
        rw [OrdMap.get_insert, OrdMap.get_insert, if_pos rfl, Option.bind_some, OrdMap.get_insert]
        by_cases equal : field = sought
        · simp [equal]
        · rw [if_neg equal, if_neg equal, pending sought]
          cases cache.changed.get id <;> simp

/-! ## Finishing -/

/-- The reader after a round that it could read. -/
def applied (reader : Reader) (cache : Cache K) : Reader :=
  discard (mergeAll cache.scope reader (outcome numeric cache).sent) (outcome numeric cache).removed

private theorem mem_sent {cache : Cache K} (sound : cache.table.Sound)
    (enough : cache.table.next.toNat + assignments cache < 2 ^ 32) {key : UInt32} :
    (key, fields) ∈ (outcome numeric cache).sent ↔
      ∃ id, cache.changed.get id = some fields ∧ (outcome numeric cache).table.keys.get id = some key := by
  have related := (outcome_spec sound enough).1
  constructor
  · intro member
    obtain ⟨⟨id, others⟩, found, held, same⟩ := ListEdits.forall₂_mem_right related member
    cases same
    exact ⟨id, OrdMap.mem_entries.mp found, held⟩
  · rintro ⟨id, changed, held⟩
    obtain ⟨⟨other, others⟩, found, given, same⟩ := ListEdits.forall₂_mem_left related (OrdMap.mem_entries.mpr changed)
    rw [held] at given
    cases given
    cases same
    exact found

private theorem sent_nodup {cache : Cache K} (sound : cache.table.Sound)
    (enough : cache.table.next.toNat + assignments cache < 2 ^ 32) : ((outcome numeric cache).sent.map Prod.fst).Nodup := by
  obtain ⟨related, extended⟩ := outcome_spec sound enough
  have distinct := OrdMap.keys_nodup cache.changed
  revert related distinct
  generalize cache.changed.entries = changed
  generalize (outcome numeric cache).sent = sent
  intro related distinct
  induction related with
  | nil => exact List.nodup_nil
  | cons head tail ih =>
    rename_i pair other pairs others
    obtain ⟨unique, rest⟩ := List.nodup_cons.mp distinct
    refine List.nodup_cons.mpr ⟨?_, ih rest⟩
    intro member
    obtain ⟨found, foundMember, same⟩ := List.mem_map.mp member
    obtain ⟨source, sourceMember, held, -⟩ := ListEdits.forall₂_mem_right tail foundMember
    have equal : pair.1 = source.1 := extended.sound.injective _ _ _ head.1 (same ▸ held)
    exact unique (equal ▸ List.mem_map.mpr ⟨source, sourceMember, rfl⟩)

private theorem closed_entry {id : K} {entry : SEntry} (found : (closed numeric cache).entries.get id = some entry) :
    cache.entries.get id = some entry ∧ id ∉ forgotten cache := by
  simp only [closed, OrdMap.get_filter, Option.filter_eq_some_iff] at found
  refine ⟨found.1, ?_⟩
  intro gone
  obtain ⟨other, held, unseen, inScope⟩ := mem_forgotten.mp gone
  rw [found.1] at held
  cases held
  simp [unmentioned, unseen, inScope] at found

section Finish
variable {scopeOf : K → UInt64} {reader : Reader} {cache : Cache K} {writes : Writes K}
  (recording : Recording scopeOf reader (cache, writes)) (enough : cache.table.next.toNat + assignments cache < 2 ^ 32)
include recording

private theorem changed_stays {id : K} {fields : Fields} (changed : cache.changed.get id = some fields) : id ∉ forgotten cache := by
  intro gone
  obtain ⟨-, ⟨entry, held, seen⟩, -⟩ := recording.changed id fields changed
  obtain ⟨other, otherHeld, unseen, -⟩ := mem_forgotten.mp gone
  rw [held] at otherHeld
  cases otherHeld
  rw [seen] at unseen
  cases unseen

include enough

private theorem fieldsAt_sent {id : K} {key : UInt32} {fields : Fields} (changed : cache.changed.get id = some fields)
    (held : (outcome numeric cache).table.keys.get id = some key) : fieldsAt reader key = known reader cache.table id := by
  have stays := changed_stays recording changed
  obtain ⟨-, extended⟩ := outcome_spec recording.table enough
  cases before : cache.table.keys.get id with
  | some old =>
    have swept : (swept cache).keys.get id = some old := by rw [(swept_spec cache).2.2 id, if_neg stays, before]
    rw [extended.kept id old swept] at held
    cases held
    simp [known, before]
  | none =>
    rcases outcome_origin recording.table enough held with ⟨-, impossible⟩ | above
    · rw [before] at impossible
      cases impossible
    · have absent : reader.get key = none := by
        cases found : reader.get key with
        | none => rfl
        | some other =>
          obtain ⟨user, used, -⟩ := recording.owned key other found
          exact absurd (recording.table.bounded user key used) (not_le.mpr above)
      simp [known, before, fieldsAt, absent]

private theorem get_applied_sent {id : K} {key : UInt32} {fields : Fields} (changed : cache.changed.get id = some fields)
    (held : (outcome numeric cache).table.keys.get id = some key) :
    (applied reader cache).get key = some ⟨cache.scope, merge_fields (known reader cache.table id) fields.entries⟩ := by
  have member := (mem_sent recording.table enough).mpr ⟨id, changed, held⟩
  have kept : key ∉ (outcome numeric cache).removed := fun gone => removed_gone recording.table enough gone id held
  rw [applied, get_discard, if_neg kept, get_mergeAll_sent (sent_nodup recording.table enough) member,
    fieldsAt_sent recording enough changed held]

private theorem get_applied_other {id : K} {key : UInt32} (unchanged : cache.changed.get id = none)
    (held : (outcome numeric cache).table.keys.get id = some key) : (applied reader cache).get key = reader.get key := by
  have kept : key ∉ (outcome numeric cache).removed := fun gone => removed_gone recording.table enough gone id held
  have unsent : key ∉ (outcome numeric cache).sent.map Prod.fst := by
    intro member
    obtain ⟨⟨sentKey, fields⟩, found, rfl⟩ := List.mem_map.mp member
    obtain ⟨user, changed, used⟩ := (mem_sent recording.table enough).mp found
    obtain ⟨-, extended⟩ := outcome_spec recording.table enough
    rw [extended.sound.injective user id sentKey used held, unchanged] at changed
    cases changed
  rw [applied, get_discard, if_neg kept, get_mergeAll_other unsent]

private theorem table_unchanged {id : K} (unchanged : cache.changed.get id = none) :
    (outcome numeric cache).table.keys.get id = if id ∈ forgotten cache then none else cache.table.keys.get id := by
  obtain ⟨-, extended⟩ := outcome_spec recording.table enough
  rw [extended.others id ?_, (swept_spec cache).2.2 id]
  intro member
  obtain ⟨⟨other, fields⟩, found, rfl⟩ := List.mem_map.mp member
  rw [OrdMap.mem_entries.mp found] at unchanged
  cases unchanged

private theorem changed_wired {id : K} {fields : Fields} (changed : cache.changed.get id = some fields) :
    ∃ key, (outcome numeric cache).table.keys.get id = some key := by
  have related := (outcome_spec recording.table enough).1
  obtain ⟨sent, -, held, -⟩ := ListEdits.forall₂_mem_left related (OrdMap.mem_entries.mpr changed)
  exact ⟨sent.1, held⟩

private theorem known_applied {id : K} {entry : SEntry} (found : (closed numeric cache).entries.get id = some entry) (field : UInt32) :
    entry.fields.get field = (known (applied reader cache) (outcome numeric cache).table id).get field := by
  obtain ⟨held, stays⟩ := closed_entry found
  have pending := recording.pending id entry held field
  cases changed : cache.changed.get id with
  | some fields =>
    obtain ⟨key, wired⟩ := changed_wired recording enough changed
    have merged := get_applied_sent recording enough changed wired
    simp only [changed, Option.bind_some] at pending
    simp only [known, wired, fieldsAt, merged, Option.map_some, Option.getD_some, get_merge_fields]
    exact pending
  | none =>
    simp only [changed, Option.bind_none, Option.none_or] at pending
    have table := table_unchanged recording enough changed
    rw [if_neg stays] at table
    cases before : cache.table.keys.get id with
    | none =>
      rw [before] at table
      simpa [known, table, before] using pending
    | some key =>
      rw [before] at table
      have same := get_applied_other recording enough changed table
      simpa [known, table, before, fieldsAt, same] using pending

theorem recording_finish :
    Recording scopeOf (applied reader cache) (closed numeric cache, forget (closed numeric cache) writes) := by
  obtain ⟨-, extended⟩ := outcome_spec recording.table enough
  have remembered {id : K} {entry : SEntry} (found : (closed numeric cache).entries.get id = some entry) :
      forget (closed numeric cache) writes id = writes id := by simp [forget, found]
  refine ⟨extended.sound, ?_, ?_, ?_, ?_, ?_, ?_, ?_, ?_⟩
  · intro id entry found
    exact recording.scopes id entry (closed_entry found).1
  · intro id entry found field
    show _ = (latest (forget (closed numeric cache) writes id)).get field
    rw [remembered found]
    exact recording.shown id entry (closed_entry found).1 field
  · intro id entry found
    exact recording.encodable id entry (closed_entry found).1
  · intro id missing
    refine ⟨by simp only [forget]; simp at missing; simp [missing], ?_, rfl⟩
    have unchanged : cache.changed.get id = none := by
      cases changed : cache.changed.get id with
      | none => rfl
      | some fields =>
        obtain ⟨-, ⟨entry, held, seen⟩, -⟩ := recording.changed id fields changed
        simp only at held
        simp [closed, held, unmentioned, seen] at missing
    show (outcome numeric cache).table.keys.get id = none
    rw [table_unchanged recording enough unchanged]
    split_ifs with gone
    · rfl
    · cases held : cache.entries.get id with
      | none => exact (recording.absent id held).2.1
      | some entry =>
        exfalso
        apply gone
        simp only [closed, OrdMap.get_filter, held] at missing
        exact mem_forgotten.mpr ⟨entry, held, by simpa [unmentioned] using missing⟩
  · intro id fields impossible
    simp [closed] at impossible
  · intro id entry found field
    exact known_applied recording enough found field
  · intro key held found
    rw [applied, get_discard] at found
    split_ifs at found with gone
    by_cases member : key ∈ (outcome numeric cache).sent.map Prod.fst
    · obtain ⟨⟨sentKey, fields⟩, sent, rfl⟩ := List.mem_map.mp member
      obtain ⟨id, changed, used⟩ := (mem_sent recording.table enough).mp sent
      rw [get_mergeAll_sent (sent_nodup recording.table enough) sent] at found
      cases found
      exact ⟨id, used, (recording.changed id fields changed).1.symm⟩
    · rw [get_mergeAll_other member] at found
      obtain ⟨id, used, inScope⟩ := recording.owned key held found
      have stays : id ∉ forgotten cache := fun forgot => gone (mem_removed.mpr ⟨id, forgot, used⟩)
      have swept : (swept cache).keys.get id = some key := by
        rw [(swept_spec cache).2.2 id, if_neg stays]
        exact used
      exact ⟨id, extended.kept id key swept, inScope⟩
  · intro id key used
    cases changed : cache.changed.get id with
    | some fields =>
      obtain ⟨-, -, field, value, present⟩ := recording.changed id fields changed
      refine ⟨_, get_applied_sent recording enough changed used, field, value, ?_⟩
      simp [get_merge_fields, present]
    | none =>
      have table := table_unchanged recording enough changed
      replace used : (outcome numeric cache).table.keys.get id = some key := used
      rw [used] at table
      split_ifs at table with gone
      obtain ⟨held, found, filled⟩ := recording.wired id key table.symm
      exact ⟨held, by rw [get_applied_other recording enough changed used]; exact found, filled⟩

theorem applied_frame {key : UInt32} {held : Held} (other : held.scope ≠ cache.scope) :
    (applied reader cache).get key = some held ↔ reader.get key = some held := by
  by_cases member : key ∈ (outcome numeric cache).sent.map Prod.fst
  · obtain ⟨⟨sentKey, fields⟩, sent, rfl⟩ := List.mem_map.mp member
    obtain ⟨id, changed, used⟩ := (mem_sent recording.table enough).mp sent
    have inScope := (recording.changed id fields changed).1
    constructor
    · intro found
      rw [get_applied_sent recording enough changed used] at found
      cases found
      exact absurd rfl other
    · intro found
      obtain ⟨user, before, itsScope⟩ := recording.owned _ _ found
      rcases outcome_origin recording.table enough used with ⟨-, same⟩ | above
      · rw [recording.table.injective user id _ before same, inScope] at itsScope
        exact absurd itsScope other
      · exact absurd (recording.table.bounded user _ before) (not_le.mpr above)
  · rw [applied, get_discard, get_mergeAll_other member]
    split_ifs with gone
    · constructor
      · intro impossible
        cases impossible
      · intro found
        obtain ⟨id, forgot, used⟩ := mem_removed.mp gone
        obtain ⟨user, before, itsScope⟩ := recording.owned key held found
        obtain ⟨entry, present, -, inScope⟩ := mem_forgotten.mp forgot
        have belongs := recording.scopes id entry present
        rw [recording.table.injective user id key before used] at itsScope
        exact absurd (itsScope.trans (belongs.symm.trans inScope)) other
    · exact Iff.rfl

end Finish

/-! ## Every run -/

private theorem recording_clear (scopeOf : K → UInt64) (cache : Cache K) :
    Recording scopeOf .empty (clear cache, fun _ => []) := by
  constructor <;> simp [clear]
  exact ⟨by simp, by simp⟩

private theorem recording_clearScope {scopeOf : K → UInt64} {reader : Reader} {cache : Cache K} {writes : Writes K}
    (recording : Recording scopeOf reader (cache, writes)) (quiet : ∀ id, cache.changed.get id = none) (scope : UInt64) :
    Recording scopeOf (reader.filter (fun _ held => held.scope ≠ scope))
      (clear_scope scope cache, forget (clear_scope scope cache) writes) := by
  have entries (id : K) (entry : SEntry) : (clear_scope scope cache).entries.get id = some entry ↔
      cache.entries.get id = some entry ∧ entry.scope ≠ scope := by
    simp [clear_scope, Option.filter_eq_some_iff]
  have table (id : K) (key : UInt32) : (clear_scope scope cache).table.keys.get id = some key ↔
      cache.table.keys.get id = some key ∧ scopeOf id ≠ scope := by
    simp only [clear_scope, OrdMap.get_filter, Option.filter_eq_some_iff]
    refine and_congr_right ?_
    intro used
    cases held : cache.entries.get id with
    | none =>
      rw [(recording.absent id held).2.1] at used
      cases used
    | some entry => simp [recording.scopes id entry held]
  have filtered (key : UInt32) (held : Held) : (reader.filter (fun _ held => held.scope ≠ scope)).get key = some held ↔
      reader.get key = some held ∧ held.scope ≠ scope := by
    simp [Option.filter_eq_some_iff]
  have scopeAt {id : K} {key : UInt32} {held : Held} (used : cache.table.keys.get id = some key)
      (found : reader.get key = some held) : held.scope = scopeOf id := by
    obtain ⟨user, before, itsScope⟩ := recording.owned key held found
    rw [itsScope, recording.table.injective user id key before used]
  refine ⟨⟨?_, ?_⟩, ?_, ?_, ?_, ?_, ?_, ?_, ?_, ?_⟩
  · intro id other key atId atOther
    exact recording.table.injective id other key ((table id key).mp atId).1 ((table other key).mp atOther).1
  · intro id key held
    exact recording.table.bounded id key ((table id key).mp held).1
  · intro id entry found
    exact recording.scopes id entry ((entries id entry).mp found).1
  · intro id entry found field
    have remembered : forget (clear_scope scope cache) writes id = writes id := by
      simp only at found
      simp [forget, found]
    show _ = (latest (forget (clear_scope scope cache) writes id)).get field
    rw [remembered]
    exact recording.shown id entry ((entries id entry).mp found).1 field
  · intro id entry found
    exact recording.encodable id entry ((entries id entry).mp found).1
  · intro id missing
    simp only at missing
    refine ⟨by simp [forget, missing], ?_, rfl⟩
    show (clear_scope scope cache).table.keys.get id = none
    cases used : (clear_scope scope cache).table.keys.get id with
    | none => rfl
    | some key =>
      obtain ⟨before, stays⟩ := (table id key).mp used
      cases held : cache.entries.get id with
      | none =>
        rw [(recording.absent id held).2.1] at before
        cases before
      | some entry =>
        have kept := (entries id entry).mpr ⟨held, by rw [recording.scopes id entry held]; exact stays⟩
        rw [missing] at kept
        cases kept
  · intro id fields impossible
    simp [clear_scope] at impossible
  · intro id entry found field
    obtain ⟨held, inScope⟩ := (entries id entry).mp found
    have pending := recording.pending id entry held field
    have stays : scopeOf id ≠ scope := recording.scopes id entry held ▸ inScope
    simp only [quiet id, Option.bind_none, Option.none_or] at pending
    rw [pending]
    show _ = (known (reader.filter (fun _ held => held.scope ≠ scope)) (clear_scope scope cache).table id).get field
    cases used : cache.table.keys.get id with
    | none =>
      have gone : (clear_scope scope cache).table.keys.get id = none := by
        cases after : (clear_scope scope cache).table.keys.get id with
        | none => rfl
        | some key =>
          rw [((table id key).mp after).1] at used
          cases used
      simp [known, used, gone]
    | some key =>
      have after := (table id key).mpr ⟨used, stays⟩
      obtain ⟨has, found, -⟩ := recording.wired id key used
      have kept := (filtered key has).mpr ⟨found, by rw [scopeAt used found]; exact stays⟩
      simp only [known, used, after, fieldsAt, found, kept]
  · intro key held found
    obtain ⟨before, inScope⟩ := (filtered key held).mp found
    obtain ⟨id, used, itsScope⟩ := recording.owned key held before
    exact ⟨id, (table id key).mpr ⟨used, itsScope ▸ inScope⟩, itsScope⟩
  · intro id key used
    obtain ⟨before, stays⟩ := (table id key).mp used
    obtain ⟨held, found, filled⟩ := recording.wired id key before
    exact ⟨held, (filtered key held).mpr ⟨found, by rw [scopeAt before found]; exact stays⟩, filled⟩

/-- Between rounds nothing is pending. -/
structure Synced (scopeOf : K → UInt64) (world : World K) : Prop where
  recording : Recording scopeOf world.reader (world.cache, world.writes)
  quiet : ∀ id, world.cache.changed.get id = none
  counted : world.cache.table.next.toNat = world.assigned

/-- What the calls of one event have to keep to. -/
structure Allowed (scopeOf : K → UInt64) (event : Event K) : Prop where
  inScope : ∀ scope calls, event = .round scope calls → ∀ call ∈ calls, scopeOf call.id = scope
  encodable : ∀ scope calls, event = .round scope calls → ∀ id field value, Call.write id field value ∈ calls → Encodable value

private theorem perform_table (state : Cache K × Writes K) (call : Call K) : (perform state call).1.table = state.1.table := by
  cases call with
  | keep id => rfl
  | write id field value =>
    simp only [perform, write]
    split <;> rfl

private theorem recording_recorded {scopeOf : K → UInt64} (synced : Synced scopeOf world) {calls : List (Call K)}
    (inScope : ∀ call ∈ calls, scopeOf call.id = scope)
    (encodable : ∀ id field value, Call.write id field value ∈ calls → Encodable value) :
    Recording scopeOf world.reader (recorded scope calls world) ∧ (recorded scope calls world).1.scope = scope ∧
      (recorded scope calls world).1.table = world.cache.table := by
  have grow (state : Cache K × Writes K) (recording : Recording scopeOf world.reader state) (current : state.1.scope = scope)
      (table : state.1.table = world.cache.table) :
      Recording scopeOf world.reader (calls.foldl perform state) ∧ (calls.foldl perform state).1.scope = scope ∧
        (calls.foldl perform state).1.table = world.cache.table := by
    induction calls generalizing state with
    | nil => exact ⟨recording, current, table⟩
    | cons call rest ih =>
      obtain ⟨next, same⟩ := recording_perform recording (by rw [current]; exact inScope call (by simp))
        (fun id field value is => encodable id field value (is ▸ List.mem_cons_self))
      exact ih (fun other member => inScope other (List.mem_cons_of_mem _ member))
        (fun id field value member => encodable id field value (List.mem_cons_of_mem _ member))
        (perform state call) next (same.trans current) ((perform_table state call).trans table)
  exact grow _ (recording_begin synced.recording synced.quiet scope) rfl rfl

private theorem changed_encodable {scopeOf : K → UInt64} {reader : Reader} {state : Cache K × Writes K}
    (recording : Recording scopeOf reader state) {id : K} (changed : state.1.changed.get id = some fields)
    {pair : UInt32 × Packed} (present : pair ∈ fields.entries) : Encodable pair.2 := by
  obtain ⟨-, ⟨entry, held, -⟩, -⟩ := recording.changed id fields changed
  have pending := recording.pending id entry held pair.1
  rw [changed, Option.bind_some, OrdMap.mem_entries.mp present, Option.some_or] at pending
  exact recording.encodable id entry held pair.1 pair.2 pending

private theorem sent_changed {cache : Cache K} {pair : UInt32 × Fields} (member : pair ∈ (outcome numeric cache).sent) :
    ∃ id, (id, pair.2) ∈ cache.changed.entries := by
  obtain ⟨key, fields⟩ := pair
  have found := (List.of_mem_zip member).2
  obtain ⟨⟨id, others⟩, source, rfl⟩ := List.mem_map.mp found
  exact ⟨id, source⟩

private theorem step_round {scopeOf : K → UInt64} (synced : Synced scopeOf world) {calls : List (Call K)}
    (allowed : Allowed scopeOf (.round scope calls)) (fits : Fits world (.round scope calls)) :
    world.step (.round scope calls) =
      { cache := closed numeric (recorded scope calls world).1
        reader := applied world.reader (recorded scope calls world).1
        writes := forget (closed numeric (recorded scope calls world).1) (recorded scope calls world).2
        assigned := world.assigned + assignments (recorded scope calls world).1 } := by
  obtain ⟨recording, current, -⟩ := recording_recorded synced (allowed.inScope scope calls rfl) (allowed.encodable scope calls rfl)
  obtain ⟨entriesFit, containerFits⟩ := fits
  have read : merge scope world.reader ⟨VAR_TYPE_INDEX, cut (entriesBuffer
      ((outcome numeric (recorded scope calls world).1).sent.map (fun pair => (Key.id pair.1, pair.2))))⟩ =
        mergeAll scope world.reader (outcome numeric (recorded scope calls world).1).sent := by
    refine merge_eq ?_ ?_ containerFits
    · intro pair member entry present
      obtain ⟨id, found⟩ := sent_changed member
      exact changed_encodable recording (OrdMap.mem_entries.mp found) present
    · intro pair member
      obtain ⟨id, found⟩ := sent_changed member
      exact entriesFit _ found
  have finished := finish_round_eq (numeric : KeyType K UInt32) (fun _ => rfl) (recorded scope calls world).1
  simp only [World.step, finished, applied, current, ← read]
  rfl

private theorem synced_step {scopeOf : K → UInt64} (synced : Synced scopeOf world) {event : Event K}
    (allowed : Allowed scopeOf event) (fits : Fits world event) (few : (world.step event).assigned < 2 ^ 32) :
    Synced scopeOf (world.step event) := by
  cases event with
  | clear => exact ⟨recording_clear scopeOf world.cache, fun _ => rfl, synced.counted⟩
  | clearScope scope => exact ⟨recording_clearScope synced.recording synced.quiet scope, fun _ => rfl, synced.counted⟩
  | round scope calls =>
    obtain ⟨recording, current, table⟩ :=
      recording_recorded synced (allowed.inScope scope calls rfl) (allowed.encodable scope calls rfl)
    rw [step_round synced allowed fits] at few ⊢
    have enough : (recorded scope calls world).1.table.next.toNat + assignments (recorded scope calls world).1 < 2 ^ 32 := by
      rw [table, synced.counted]
      exact few
    refine ⟨recording_finish recording enough, fun _ => rfl, ?_⟩
    have counted := (outcome_spec recording.table enough).2.counted
    rw [(swept_spec _).2.1, table, synced.counted] at counted
    exact counted

private theorem round_frame {scopeOf : K → UInt64} (synced : Synced scopeOf world) {calls : List (Call K)}
    (allowed : Allowed scopeOf (.round scope calls)) (fits : Fits world (.round scope calls))
    (few : (world.step (.round scope calls)).assigned < 2 ^ 32) {key : UInt32} {held : Held}
    (other : held.scope ≠ scope) :
    (world.step (.round scope calls)).reader.get key = some held ↔ world.reader.get key = some held := by
  obtain ⟨recording, current, table⟩ :=
    recording_recorded synced (allowed.inScope scope calls rfl) (allowed.encodable scope calls rfl)
  rw [step_round synced allowed fits] at few ⊢
  have enough : (recorded scope calls world).1.table.next.toNat + assignments (recorded scope calls world).1 < 2 ^ 32 := by
    rw [table, synced.counted]
    exact few
  have elsewhere : held.scope ≠ (recorded scope calls world).1.scope := by
    rw [current]
    exact other
  exact applied_frame recording enough elsewhere

private theorem latest_written {writes : List (UInt32 × Bytes)} (written : writes ≠ []) :
    ∃ field payload, (latest writes).get field = some payload := by
  rcases List.eq_nil_or_concat writes with rfl | ⟨before, ⟨field, payload⟩, rfl⟩
  · exact absurd rfl written
  · exact ⟨field, payload, by rw [List.concat_eq_append, get_latest_append, if_pos rfl]⟩

private theorem converged_of_synced {scopeOf : K → UInt64} (synced : Synced scopeOf world) : Converged world := by
  obtain ⟨recording, quiet, -⟩ := synced
  have reads (id : K) (entry : SEntry) (held : world.cache.entries.get id = some entry) (field : UInt32) :
      entry.fields.get field = (known world.reader world.cache.table id).get field := by
    have pending := recording.pending id entry held field
    simpa [quiet id] using pending
  refine ⟨recording.table.injective, ?_, ?_⟩
  · intro id remembered written
    obtain ⟨entry, held⟩ := Option.isSome_iff_exists.mp remembered
    have shown := recording.shown id entry held
    cases used : world.cache.table.keys.get id with
    | none =>
      obtain ⟨field, payload, last⟩ := latest_written written
      have same := reads id entry held field
      simp only [known, used, OrdMap.get_empty] at same
      have absent := shown field
      rw [same] at absent
      exact absurd (absent.trans last) (by simp)
    | some key =>
      obtain ⟨found, present, -⟩ := recording.wired id key used
      refine ⟨key, found, rfl, present, OrdMap.ext_get ?_⟩
      intro field
      have same := reads id entry held field
      simp only [known, used, fieldsAt, present, Option.map_some, Option.getD_some] at same
      rw [OrdMap.get_mapValues, ← same]
      exact shown field
  · intro key held present
    obtain ⟨id, used, -⟩ := recording.owned key held present
    cases remembered : world.cache.entries.get id with
    | none =>
      rw [(recording.absent id remembered).2.1] at used
      cases used
    | some entry =>
      refine ⟨id, used, by simp [remembered], ?_⟩
      intro unwritten
      obtain ⟨found, again, field, value, filled⟩ := recording.wired id key used
      have same := reads id entry remembered field
      simp only [known, used, fieldsAt, again, Option.map_some, Option.getD_some, filled] at same
      have shown : (entry.fields.get field).map Packed.payload = (latest (world.writes id)).get field :=
        recording.shown id entry remembered field
      rw [same, unwritten] at shown
      cases shown

private theorem step_assigned (world : World K) (event : Event K) : world.assigned ≤ (world.step event).assigned := by
  cases event with
  | clear => exact le_refl _
  | clearScope scope => exact le_refl _
  | round scope calls =>
    simp only [World.step]
    split
    · exact Nat.le_add_right _ _
    · exact le_refl _

private theorem run_assigned (events : List (Event K)) (world : World K) :
    world.assigned ≤ (events.foldl World.step world).assigned := by
  induction events generalizing world with
  | nil => exact le_refl _
  | cons event rest ih => exact le_trans (step_assigned world event) (ih (world.step event))

private theorem synced_run {scopeOf : K → UInt64} {events : List (Event K)} (synced : Synced scopeOf world)
    (allowed : ∀ event ∈ events, Allowed scopeOf event) (fits : AllFit world events)
    (few : (events.foldl World.step world).assigned < 2 ^ 32) : Synced scopeOf (events.foldl World.step world) := by
  induction events generalizing world with
  | nil => exact synced
  | cons event rest ih =>
    have next := synced_step synced (allowed event (by simp)) fits.1 (lt_of_le_of_lt (run_assigned rest _) few)
    exact ih next (fun other member => allowed other (List.mem_cons_of_mem _ member)) fits.2 few

private theorem allFit_append {before after : List (Event K)} :
    AllFit world (before ++ after) ↔ AllFit world before ∧ AllFit (before.foldl World.step world) after := by
  induction before generalizing world with
  | nil => simp [AllFit]
  | cons event rest ih => simp [AllFit, ih, and_assoc]

/-- Where every id is mentioned under one scope, the values can be encoded and
    what a round sends stays below 4 GB, the reader has after every round exactly
    the entries that were written and are remembered, and a round leaves the
    entries of other scopes alone. -/
theorem delta_converges {scopeOf : K → UInt64} {events : List (Event K)} (inScope : OneScope scopeOf events)
    (encodable : ValuesEncodable events) (fits : AllFit {} events) (few : (run events).assigned < 2 ^ 32) :
    Converged (run events) ∧
      ∀ before scope calls, events = before ++ [.round scope calls] → ∀ key held, held.scope ≠ scope →
        ((run events).reader.get key = some held ↔ (run before).reader.get key = some held) := by
  have allowed : ∀ event ∈ events, Allowed scopeOf event := by
    intro event member
    constructor
    · rintro scope calls rfl
      exact inScope scope calls member
    · rintro scope calls rfl
      exact encodable scope calls member
  have start : Synced scopeOf ({} : World K) := ⟨recording_start scopeOf, fun _ => rfl, rfl⟩
  refine ⟨converged_of_synced (synced_run start allowed fits few), ?_⟩
  rintro before scope calls rfl key held other
  obtain ⟨beforeFits, roundFits, -⟩ := allFit_append.mp fits
  have split : run (before ++ [.round scope calls]) = (run before).step (.round scope calls) := by
    simp [run, List.foldl_append]
  rw [split] at few ⊢
  have synced : Synced scopeOf (run before) :=
    synced_run start (fun event member => allowed event (List.mem_append_left _ member)) beforeFits
      (lt_of_le_of_lt (step_assigned _ _) few)
  exact round_frame synced (allowed _ (by simp)) roundFits few other

theorem delta_converges_kept :
    Converged (run [.round 1 [.write (7 : UInt64) 1 ⟨VAR_TYPE_UINT, [5]⟩, .keep 8], .round 2 [.write 9 1 ⟨VAR_TYPE_UINT, [6]⟩],
      .round 1 [.keep 7], .clearScope 2]) := by
  have inScope : OneScope (fun id : UInt64 => if id = 9 then 2 else 1)
      [.round 1 [.write (7 : UInt64) 1 ⟨VAR_TYPE_UINT, [5]⟩, .keep 8], .round 2 [.write 9 1 ⟨VAR_TYPE_UINT, [6]⟩],
        .round 1 [.keep 7], .clearScope 2] := by
    intro scope calls member call called
    simp only [List.mem_cons, List.not_mem_nil, or_false, reduceCtorEq, Event.round.injEq] at member
    rcases member with ⟨rfl, rfl⟩ | ⟨rfl, rfl⟩ | ⟨rfl, rfl⟩
    · simp only [List.mem_cons, List.not_mem_nil, or_false] at called
      rcases called with rfl | rfl <;> rfl
    · cases List.mem_singleton.mp called
      rfl
    · cases List.mem_singleton.mp called
      rfl
  refine (delta_converges inScope ?_ ?_ (by decide)).1
  · intro scope calls member id field value called
    simp only [List.mem_cons, List.not_mem_nil, or_false, reduceCtorEq, Event.round.injEq] at member
    rcases member with ⟨rfl, rfl⟩ | ⟨rfl, rfl⟩ | ⟨rfl, rfl⟩ <;>
      simp only [List.mem_cons, List.not_mem_nil, or_false, reduceCtorEq, Call.write.injEq] at called
    · obtain ⟨rfl, rfl, rfl⟩ := called
      exact ⟨by decide, by decide⟩
    · obtain ⟨rfl, rfl, rfl⟩ := called
      exact ⟨by decide, by decide⟩
  · refine ⟨⟨?_, by decide⟩, ⟨?_, by decide⟩, ⟨?_, by decide⟩, trivial, trivial⟩ <;> decide

/-! ## Where the reader is left behind -/

/-- Every id is written under one scope only; nothing is said about `Keep`. -/
def WrittenInOneScope (scopeOf : K → UInt64) (events : List (Event K)) : Prop :=
  ∀ scope calls, Event.round scope calls ∈ events → ∀ id field value, Call.write id field value ∈ calls → scopeOf id = scope

/-- `Keep` in another scope moves the entry there, which the reader is not told. -/
def keptElsewhere : List (Event UInt64) :=
  [.round 1 [.write 7 1 ⟨VAR_TYPE_UINT, [5]⟩], .round 2 [.keep 7], .clearScope 1, .round 3 []]

private theorem keptElsewhere_diverges : ¬ Converged (run keptElsewhere) := by
  intro converged
  obtain ⟨key, held, used, present, -⟩ := converged.held 7 rfl (by decide)
  have first : (run keptElsewhere).cache.table.keys.get 7 = some 1 := rfl
  have dropped : (run keptElsewhere).reader.get 1 = none := rfl
  rw [first] at used
  cases used
  rw [dropped] at present
  cases present

def writtenOnce (value : Packed) : List (Event UInt64) := [.round 1 [.write 7 1 value]]

private theorem writtenOnce_diverges {value : Packed}
    (remembered : (run (writtenOnce value)).writes 7 = [(1, value.payload)])
    (used : (run (writtenOnce value)).cache.table.keys.get 7 = some 1)
    (entry : ((run (writtenOnce value)).cache.entries.get 7).isSome)
    (read : (run (writtenOnce value)).reader.get 1 = some ⟨1, fields⟩)
    (lost : (fields.get 1).map Packed.payload ≠ some value.payload) : ¬ Converged (run (writtenOnce value)) := by
  intro converged
  obtain ⟨key, held, again, present, same⟩ := converged.held 7 entry (by rw [remembered]; simp)
  rw [used] at again
  cases again
  rw [read] at present
  cases present
  have field : (fields.mapValues (fun _ value => value.payload)).get 1 = (latest [(1, value.payload)]).get 1 := by
    rw [same, remembered]
  rw [OrdMap.get_mapValues] at field
  exact lost (field.trans rfl)

private theorem empty_payload_diverges : ¬ Converged (run (writtenOnce ⟨VAR_TYPE_EMPTY, [0xAA]⟩)) :=
  writtenOnce_diverges rfl rfl rfl rfl (by decide)

/-- A value that fills the entry to 4 GB: `Finish` keeps nothing of it. -/
private theorem huge_value_diverges {payload : Bytes} (huge : payload.length = 2 ^ 32 - 9) :
    ¬ Converged (run (writtenOnce ⟨VAR_TYPE_BYTES, payload⟩)) := by
  have header : (packet_header VAR_TYPE_BYTES payload.length).length = 5 := by
    rw [packet_header_length, huge]
    decide
  have nothing : packFields ((OrdMap.empty : Fields).insert 1 ⟨VAR_TYPE_BYTES, payload⟩) = ⟨VAR_TYPE_INDEX, []⟩ := by
    have full : (fieldsBuffer ((OrdMap.empty : Fields).insert 1 ⟨VAR_TYPE_BYTES, payload⟩)).length = 2 ^ 32 := by
      have single : fieldsBuffer ((OrdMap.empty : Fields).insert 1 ⟨VAR_TYPE_BYTES, payload⟩) =
          leBytes 4 1 ++ (packet_header VAR_TYPE_BYTES payload.length ++ payload) ++ [] := rfl
      have key : (leBytes 4 1).length = 4 := rfl
      rw [single, List.append_nil, List.length_append, List.length_append, header, key, huge]
      norm_num
    rw [packFields, cut, full]
    rfl
  have finished := finish_round_eq numeric (fun _ => rfl) (recorded 1 [.write (7 : UInt64) 1 ⟨VAR_TYPE_BYTES, payload⟩] {}).1
  have spelled : entriesBuffer ((outcome numeric (recorded 1 [.write (7 : UInt64) 1 ⟨VAR_TYPE_BYTES, payload⟩] {}).1).sent.map
      (fun pair => (numeric (K := UInt64).spell pair.1, pair.2))) = write_entry (.id 1, ⟨VAR_TYPE_INDEX, []⟩) ++ [] := by
    rw [← nothing]
    rfl
  rw [spelled] at finished
  have read : (run (writtenOnce ⟨VAR_TYPE_BYTES, payload⟩)).reader.get 1 = some ⟨1, .empty⟩ := by
    simp only [run, writtenOnce, List.foldl_cons, List.foldl_nil, World.step, finished]
    rfl
  exact writtenOnce_diverges rfl rfl rfl read (by simp)

private theorem writtenOnce_inOneScope (value : Packed) : WrittenInOneScope (fun _ => 1) (writtenOnce value) := by
  intro scope calls member id field other called
  cases List.mem_singleton.mp member
  rfl

private theorem writtenOnce_assigned (value : Packed) : (run (writtenOnce value)).assigned < 2 ^ 32 := by
  have one : (run (writtenOnce value)).assigned = 1 := rfl
  rw [one]
  norm_num

/-- Ids written under one scope are not enough: `Keep` under another one, an
    EMPTY with a payload, and an entry of 4 GB each leave the reader with
    something else. -/
theorem delta_diverges :
    (∃ scopeOf, WrittenInOneScope scopeOf keptElsewhere ∧ (run keptElsewhere).assigned < 2 ^ 32 ∧ ¬ Converged (run keptElsewhere)) ∧
      ∀ value, value = ⟨VAR_TYPE_EMPTY, [0xAA]⟩ ∨ value = ⟨VAR_TYPE_BYTES, List.replicate (2 ^ 32 - 9) 0⟩ →
        ∃ scopeOf, WrittenInOneScope scopeOf (writtenOnce value) ∧ (run (writtenOnce value)).assigned < 2 ^ 32 ∧
          ¬ Converged (run (writtenOnce value)) := by
  refine ⟨⟨fun _ => 1, ?_, by decide, keptElsewhere_diverges⟩, ?_⟩
  · intro scope calls member id field value called
    simp only [keptElsewhere, List.mem_cons, List.not_mem_nil, or_false, reduceCtorEq, false_or, Event.round.injEq] at member
    rcases member with ⟨rfl, rfl⟩ | ⟨rfl, rfl⟩ | ⟨rfl, rfl⟩
    · rfl
    · simp at called
    · simp at called
  · rintro value (rfl | rfl)
    · exact ⟨_, writtenOnce_inOneScope _, writtenOnce_assigned _, empty_payload_diverges⟩
    · exact ⟨_, writtenOnce_inOneScope _, writtenOnce_assigned _, huge_value_diverges (List.length_replicate ..)⟩

end Run

end TaskExplorer.CacheDelta
