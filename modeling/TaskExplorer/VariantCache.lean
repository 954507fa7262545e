import TaskExplorer.VariantTree

/-!
# The delta cache

`CVariantCacheT` remembers what has been sent, so that a round sends only what
changed. The two key types differ in the container they are written to and in
what the reader knows an entry by: a session handle, or the name itself.

A value is kept as its type and the payload `MkPayload` gives for it; neither the
comparison nor the writing looks further.
-/

namespace TaskExplorer.VariantCache
open Codec OrderedMap VariantFormat VariantContainer
open VariantValue

abbrev Fields := OrdMap UInt32 Packed

structure SEntry where
  fields : Fields := .empty
  seen : Bool := false
  scope : UInt64 := 0

section Cache
variable {K W : Type} [LinearOrder K]

/-- `m_WireKeys` and `m_NextWireKey`. -/
structure WireTable (K : Type) [LinearOrder K] where
  keys : OrdMap K UInt32 := .empty
  next : UInt32 := 0

structure Cache (K : Type) [LinearOrder K] where
  entries : OrdMap K SEntry := .empty
  table : WireTable K := {}
  changed : OrdMap K Fields := .empty
  inRound : Bool := false
  scope : UInt64 := 0

/-- What the two key types are specialised in. -/
structure KeyType (K W : Type) [LinearOrder K] where
  kind : Kind
  wire_key : K → WireTable K → W × WireTable K
  take_wire_key : K → WireTable K → Option W × WireTable K
  spell : W → Key

/-! ## Recording -/

def begin_round (scope : UInt64) (cache : Cache K) : Cache K :=
  { cache with
    entries := cache.entries.mapValues (fun _ entry => if entry.scope = scope then { entry with seen := false } else entry)
    changed := .empty
    inRound := true
    scope := scope }

/-- `m_Entries[Id]`, which is there from then on. -/
def entryOf (id : K) (cache : Cache K) : SEntry := (cache.entries.get id).getD {}

def keep (id : K) (cache : Cache K) : Cache K :=
  { cache with entries := cache.entries.insert id { entryOf id cache with seen := true, scope := cache.scope } }

/-- Payloads are compared, types are not. -/
def compare_to (old : Option Packed) (value : Packed) : Bool :=
  match old with
  | some old => old.payload = value.payload
  | none => false

def write (id : K) (field : UInt32) (value : Packed) (cache : Cache K) : Cache K :=
  let entry := { entryOf id cache with seen := true, scope := cache.scope }
  if compare_to (entry.fields.get field) value then { cache with entries := cache.entries.insert id entry }
  else
    { cache with
      entries := cache.entries.insert id { entry with fields := entry.fields.insert field value }
      changed := cache.changed.insert id (((cache.changed.get id).getD .empty).insert field value) }

/-! ## Finishing a round -/

/-- An entry of the round's scope that the round did not mention. -/
def unmentioned (scope : UInt64) (entry : SEntry) : Bool := !entry.seen && entry.scope = scope

def forgotten (cache : Cache K) : List K :=
  (cache.entries.filter (fun _ entry => unmentioned cache.scope entry)).entries.map Prod.fst

/-- The removal loop: what each forgotten entry was known by, if it was. -/
def take_all (keyType : KeyType K W) : List K → WireTable K → List W × WireTable K
  | [], table => ([], table)
  | id :: rest, table =>
    let (taken, table) := keyType.take_wire_key id table
    let (removed, table) := take_all keyType rest table
    (taken.toList ++ removed, table)

/-- The wire key of every changed entry, in the order they are written. -/
def wire_all (keyType : KeyType K W) : List K → WireTable K → List W × WireTable K
  | [], table => ([], table)
  | id :: rest, table =>
    let (key, table) := keyType.wire_key id table
    let (keys, table) := wire_all keyType rest table
    (key :: keys, table)

/-- `BeginIMap`, a `WriteVariant` for every field, `Finish`. -/
def write_fields (fields : Fields) : Except CException Variant := do
  let filled ← fields.entries.foldlM
    (fun entry pair => write_variant entry (.id pair.1) (.raw .readOnly pair.2)) (begin_container .index)
  finish filled

def write_entries (kind : Kind) (sent : List (Key × Fields)) : Except CException Variant := do
  let filled ← sent.foldlM (fun container pair => do
    let entry ← write_fields pair.2
    write_variant container pair.1 entry) (begin_container kind)
  finish filled

/-- What a round comes to: the keys of the forgotten entries, the wire keys of
    the changed ones with their fields, and the table after both. -/
structure Outcome (K W : Type) [LinearOrder K] where
  removed : List W
  sent : List (W × Fields)
  table : WireTable K

def outcome (keyType : KeyType K W) (cache : Cache K) : Outcome K W :=
  let (removed, table) := take_all keyType (forgotten cache) cache.table
  let (keys, table) := wire_all keyType (cache.changed.entries.map Prod.fst) table
  ⟨removed, keys.zip (cache.changed.entries.map Prod.snd), table⟩

def closed (keyType : KeyType K W) (cache : Cache K) : Cache K :=
  { cache with
    entries := cache.entries.filter (fun _ entry => !unmentioned cache.scope entry)
    table := (outcome keyType cache).table
    changed := .empty
    inRound := false }

def finish_round (keyType : KeyType K W) (cache : Cache K) : Except CException (Variant × List W × Cache K) := do
  let result := outcome keyType cache
  let changed ← write_entries keyType.kind (result.sent.map (fun pair => (keyType.spell pair.1, pair.2)))
  return (changed, result.removed, closed keyType cache)

/-! ## Forgetting -/

def clear_scope (scope : UInt64) (cache : Cache K) : Cache K :=
  { cache with
    entries := cache.entries.filter (fun _ entry => entry.scope ≠ scope)
    table := { cache.table with
      keys := cache.table.keys.filter (fun id _ => ((cache.entries.get id).map SEntry.scope) ≠ some scope) }
    changed := .empty }

/-- The counter is not reset. -/
def clear (cache : Cache K) : Cache K :=
  { cache with
    entries := .empty
    changed := .empty
    table := { cache.table with keys := .empty }
    inRound := false }

/-! ## The two key types -/

/-- `CVariantCache`: an index of session handles. -/
def numeric : KeyType K UInt32 where
  kind := .index
  wire_key id table :=
    match table.keys.get id with
    | some key => (key, table)
    | none => (table.next + 1, ⟨table.keys.insert id (table.next + 1), table.next + 1⟩)
  take_wire_key id table :=
    match table.keys.get id with
    | none => (none, table)
    | some key => (some key, { table with keys := table.keys.erase id })
  spell := .id

/-- `CVariantCacheStr`: a map under the names. -/
def named (toUtf8 : K → Bytes) : KeyType K K where
  kind := .map
  wire_key id table := (id, table)
  take_wire_key id table := (some id, table)
  spell name := .name (toUtf8 name)

/-! ## Session handles -/

/-- The ids that get a handle when all of these are written. -/
def newcomers (ids : List K) (table : WireTable K) : List K := ids.filter (fun id => (table.keys.get id).isNone)

/-- No two ids share a handle, and none is above the counter. -/
structure WireTable.Sound (table : WireTable K) : Prop where
  injective : ∀ id other key, table.keys.get id = some key → table.keys.get other = some key → id = other
  bounded : ∀ id key, table.keys.get id = some key → key ≤ table.next

variable {table : WireTable K} {cache : Cache K}

variable {key : UInt32}

theorem numeric_take_some {id : K} (found : table.keys.get id = some key) :
    numeric.take_wire_key id table = (some key, { table with keys := table.keys.erase id }) := by
  simp [numeric, found]

theorem numeric_take_none {id : K} (absent : table.keys.get id = none) :
    numeric.take_wire_key id table = (none, table) := by
  simp [numeric, absent]

theorem take_all_spec {ids : List K} (distinct : ids.Nodup) (table : WireTable K) :
    (take_all numeric ids table).1 = ids.filterMap table.keys.get ∧
      (take_all numeric ids table).2.next = table.next ∧
      ∀ id, (take_all numeric ids table).2.keys.get id = if id ∈ ids then none else table.keys.get id := by
  induction ids generalizing table with
  | nil => simp [take_all]
  | cons first rest ih =>
    obtain ⟨fresh, others⟩ := List.nodup_cons.mp distinct
    cases found : table.keys.get first with
    | none =>
      obtain ⟨removed, next, keys⟩ := ih others table
      simp only [take_all, numeric_take_none found]
      refine ⟨by simp [removed, found], next, ?_⟩
      intro id
      rw [keys id]
      by_cases same : id = first
      · subst same
        simp [found]
      · simp [same]
    | some key =>
      obtain ⟨removed, next, keys⟩ := ih others { table with keys := table.keys.erase first }
      simp only [take_all, numeric_take_some found]
      have untouched : rest.filterMap (table.keys.erase first).get = rest.filterMap table.keys.get := by
        apply List.filterMap_congr
        intro id member
        have other : first ≠ id := fun same => fresh (same ▸ member)
        simp [other]
      refine ⟨by rw [List.filterMap_cons_some found, removed, untouched]; rfl, next, ?_⟩
      intro id
      rw [keys id]
      by_cases same : id = first
      · subst same
        simp
      · have other : first ≠ id := fun equal => same equal.symm
        simp [same, other]

theorem numeric_wire_some {id : K} (found : table.keys.get id = some key) :
    numeric.wire_key id table = (key, table) := by
  simp [numeric, found]

theorem numeric_wire_none {id : K} (absent : table.keys.get id = none) :
    numeric.wire_key id table = (table.next + 1, ⟨table.keys.insert id (table.next + 1), table.next + 1⟩) := by
  simp [numeric, absent]

/-- A table that knows more ids: the handles there were are kept, and the new
    ones are above the old counter. -/
structure Extends (ids : List K) (before after : WireTable K) : Prop where
  kept : ∀ id key, before.keys.get id = some key → after.keys.get id = some key
  others : ∀ id, id ∉ ids → after.keys.get id = before.keys.get id
  fresh : ∀ id key, before.keys.get id = none → after.keys.get id = some key → before.next < key
  counted : after.next.toNat = before.next.toNat + (newcomers ids before).length
  sound : after.Sound

theorem wire_all_spec {ids : List K} (distinct : ids.Nodup) (sound : table.Sound)
    (enough : table.next.toNat + (newcomers ids table).length < 2 ^ 32) :
    List.Forall₂ (fun id key => (wire_all numeric ids table).2.keys.get id = some key) ids (wire_all numeric ids table).1 ∧
      Extends ids table (wire_all numeric ids table).2 := by
  induction ids generalizing table with
  | nil =>
    refine ⟨.nil, fun _ _ found => found, fun _ _ => rfl, ?_, by simp [newcomers, wire_all], sound⟩
    intro id key absent found
    rw [wire_all, absent] at found
    cases found
  | cons first rest ih =>
    obtain ⟨unique, others⟩ := List.nodup_cons.mp distinct
    cases found : table.keys.get first with
    | some key =>
      have same : newcomers (first :: rest) table = newcomers rest table := by simp [newcomers, found]
      rw [same] at enough
      obtain ⟨related, extended⟩ := ih others sound enough
      simp only [wire_all, numeric_wire_some found]
      refine ⟨.cons (extended.kept first key found) related, extended.kept, ?_, extended.fresh, ?_, extended.sound⟩
      · intro id absent
        exact extended.others id (fun member => absent (List.mem_cons_of_mem _ member))
      · rw [same]
        exact extended.counted
    | none =>
      have more : newcomers (first :: rest) table = first :: newcomers rest table := by simp [newcomers, found]
      rw [more, List.length_cons] at enough
      have step : (table.next + 1).toNat = table.next.toNat + 1 := by
        rw [UInt32.toNat_add]
        exact Nat.mod_eq_of_lt (by simpa using (by omega : table.next.toNat + 1 < 2 ^ 32))
      have above : table.next < table.next + 1 := by
        rw [UInt32.lt_iff_toNat_lt, step]
        omega
      -- the handle given out is above every handle of the table
      have grown : WireTable.Sound ⟨table.keys.insert first (table.next + 1), table.next + 1⟩ := by
        constructor
        · intro id other key atId atOther
          simp only [OrdMap.get_insert] at atId atOther
          have low (known : K) (held : table.keys.get known = some key) : key ≠ table.next + 1 :=
            ne_of_lt (lt_of_le_of_lt (sound.bounded known key held) above)
          split_ifs at atId atOther with isId isOther isOther
          · exact isId.symm.trans isOther
          · exact absurd (Option.some.inj atId).symm (low other atOther)
          · exact absurd (Option.some.inj atOther).symm (low id atId)
          · exact sound.injective id other key atId atOther
        · intro id key held
          simp only [OrdMap.get_insert] at held
          split_ifs at held with isId
          · cases held
            exact le_refl _
          · exact le_of_lt (lt_of_le_of_lt (sound.bounded id key held) above)
      have fewer : newcomers rest ⟨table.keys.insert first (table.next + 1), table.next + 1⟩ = newcomers rest table := by
        apply List.filter_congr
        intro id member
        have other : first ≠ id := fun same => unique (same ▸ member)
        simp [other]
      obtain ⟨related, extended⟩ := ih others grown (by rw [fewer, step]; omega)
      have given := extended.kept first (table.next + 1) (by simp)
      simp only [wire_all, numeric_wire_none found]
      refine ⟨.cons given related, ?_, ?_, ?_, ?_, extended.sound⟩
      · intro id key held
        have other : first ≠ id := by
          intro same
          subst same
          rw [found] at held
          cases held
        exact extended.kept id key (by simp [other, held])
      · intro id absent
        obtain ⟨other, later⟩ := not_or.mp (fun member => absent (List.mem_cons.mpr member))
        rw [extended.others id later]
        simp [Ne.symm other]
      · intro id key absent held
        by_cases same : first = id
        · subst same
          rw [given] at held
          cases held
          exact above
        · exact lt_trans above (extended.fresh id key (by simp [same, absent]) held)
      · rw [extended.counted, fewer, more, List.length_cons]
        simp only [step]
        omega

/-- The table between the removal loop and the writing. -/
def swept (cache : Cache K) : WireTable K := (take_all numeric (forgotten cache) cache.table).2

/-- How many handles a round gives out. -/
def assignments (cache : Cache K) : Nat := (newcomers (cache.changed.entries.map Prod.fst) (swept cache)).length

theorem forgotten_nodup (cache : Cache K) : (forgotten cache).Nodup := OrdMap.keys_nodup _

theorem mem_forgotten {id : K} :
    id ∈ forgotten cache ↔ ∃ entry, cache.entries.get id = some entry ∧ entry.seen = false ∧ entry.scope = cache.scope := by
  constructor
  · intro member
    obtain ⟨⟨other, entry⟩, found, rfl⟩ := List.mem_map.mp member
    have held := OrdMap.mem_entries.mp found
    rw [OrdMap.get_filter, Option.filter_eq_some_iff] at held
    obtain ⟨held, gone⟩ := held
    exact ⟨entry, held, by simpa [unmentioned] using gone⟩
  · rintro ⟨entry, held, gone⟩
    refine List.mem_map.mpr ⟨(id, entry), OrdMap.mem_entries.mpr ?_, rfl⟩
    rw [OrdMap.get_filter, Option.filter_eq_some_iff]
    exact ⟨held, by simpa [unmentioned] using gone⟩

theorem swept_spec (cache : Cache K) :
    (outcome numeric cache).removed = (forgotten cache).filterMap cache.table.keys.get ∧
      (swept cache).next = cache.table.next ∧
      ∀ id, (swept cache).keys.get id = if id ∈ forgotten cache then none else cache.table.keys.get id :=
  take_all_spec (forgotten_nodup cache) cache.table

theorem swept_kept {id : K} (held : (swept cache).keys.get id = some key) :
    id ∉ forgotten cache ∧ cache.table.keys.get id = some key := by
  rw [(swept_spec cache).2.2 id] at held
  split_ifs at held with gone
  exact ⟨gone, held⟩

theorem swept_sound (sound : cache.table.Sound) : (swept cache).Sound where
  injective id other key atId atOther := sound.injective id other key (swept_kept atId).2 (swept_kept atOther).2
  bounded id key held := by
    rw [(swept_spec cache).2.1]
    exact sound.bounded id key (swept_kept held).2

theorem outcome_spec (sound : cache.table.Sound) (enough : cache.table.next.toNat + assignments cache < 2 ^ 32) :
    List.Forall₂ (fun changed sent => (outcome numeric cache).table.keys.get changed.1 = some sent.1 ∧ changed.2 = sent.2)
        cache.changed.entries (outcome numeric cache).sent ∧
      Extends (cache.changed.entries.map Prod.fst) (swept cache) (outcome numeric cache).table := by
  obtain ⟨-, next, -⟩ := swept_spec cache
  obtain ⟨related, extended⟩ := wire_all_spec (OrdMap.keys_nodup cache.changed) (swept_sound sound) (by rw [next]; exact enough)
  refine ⟨?_, extended⟩
  have zipped (pairs : List (K × Fields)) (keys : List UInt32)
      (related : List.Forall₂ (fun id key => (outcome numeric cache).table.keys.get id = some key) (pairs.map Prod.fst) keys) :
      List.Forall₂ (fun changed sent => (outcome numeric cache).table.keys.get changed.1 = some sent.1 ∧ changed.2 = sent.2)
        pairs (keys.zip (pairs.map Prod.snd)) := by
    induction pairs generalizing keys with
    | nil =>
      cases related
      exact .nil
    | cons pair rest ih =>
      cases related with
      | cons head tail => exact .cons ⟨head, rfl⟩ (ih _ tail)
  exact zipped _ _ related

theorem outcome_origin (sound : cache.table.Sound) (enough : cache.table.next.toNat + assignments cache < 2 ^ 32)
    {id : K} (held : (outcome numeric cache).table.keys.get id = some key) :
    (id ∉ forgotten cache ∧ cache.table.keys.get id = some key) ∨ cache.table.next < key := by
  obtain ⟨-, next, -⟩ := swept_spec cache
  obtain ⟨-, extended⟩ := outcome_spec sound enough
  cases before : (swept cache).keys.get id with
  | none => exact Or.inr (next ▸ extended.fresh id key before held)
  | some old =>
    rw [extended.kept id old before] at held
    cases held
    exact Or.inl (swept_kept before)

theorem mem_removed :
    key ∈ (outcome numeric cache).removed ↔ ∃ id ∈ forgotten cache, cache.table.keys.get id = some key := by
  rw [(swept_spec cache).1, List.mem_filterMap]

theorem removed_gone (sound : cache.table.Sound) (enough : cache.table.next.toNat + assignments cache < 2 ^ 32)
    (member : key ∈ (outcome numeric cache).removed) (id : K) :
    (outcome numeric cache).table.keys.get id ≠ some key := by
  obtain ⟨user, gone, before⟩ := mem_removed.mp member
  intro held
  rcases outcome_origin sound enough held with ⟨stays, other⟩ | above
  · exact stays (sound.injective user id key before other ▸ gone)
  · exact absurd (sound.bounded user key before) (not_le.mpr above)

/-! ## What is written -/

/-- `Finish` keeps the low 32 bits of the size. -/
def cut (buffer : Bytes) : Bytes := buffer.take (buffer.length % 2 ^ 32)

def fieldsBuffer (fields : Fields) : Bytes := fields.entries.flatMap (fun pair => write_entry (.id pair.1, pair.2))

def packFields (fields : Fields) : Packed := ⟨VAR_TYPE_INDEX, cut (fieldsBuffer fields)⟩

def entriesBuffer (sent : List (Key × Fields)) : Bytes :=
  sent.flatMap (fun pair => write_entry (pair.1.stored, packFields pair.2))

private theorem foldlM_write_variant {α : Type} (spell : α → Key × Packed) {kind : Kind} {values : List α}
    (kinds : ∀ value ∈ values, kind = Key.kind (spell value).1) (buffer : Bytes) :
    values.foldlM (fun target value => write_variant target (spell value).1 (.raw .readOnly (spell value).2)) (.writing kind buffer) =
      .ok (.writing kind (buffer ++ values.flatMap (fun value => write_entry ((spell value).1.stored, (spell value).2)))) := by
  induction values generalizing buffer with
  | nil => simp [pure, Except.pure]
  | cons value rest ih =>
    have first : write_variant (.writing kind buffer) (spell value).1 (.raw .readOnly (spell value).2) =
        .ok (.writing kind (buffer ++ write_entry ((spell value).1.stored, (spell value).2))) := by
      have packet : to_packet_variant (.raw .readOnly (spell value).2) = .ok (to_packet (spell value).2) := rfl
      rw [write_variant, packet]
      simp only [bind, Except.bind, write_packet, if_pos (kinds value (by simp)), write_entry, List.append_assoc]
    rw [List.foldlM_cons, first]
    have later := ih (fun other member => kinds other (List.mem_cons_of_mem _ member))
      (buffer ++ write_entry ((spell value).1.stored, (spell value).2))
    simpa [List.append_assoc, bind, Except.bind] using later

theorem write_fields_eq (fields : Fields) : write_fields fields = .ok (.raw .readOnly (packFields fields)) := by
  have kinds : ∀ pair ∈ fields.entries, Kind.index = Key.kind (Key.id pair.1) := fun _ _ => rfl
  have filled := foldlM_write_variant (fun pair : UInt32 × Packed => (Key.id pair.1, pair.2)) kinds []
  rw [write_fields, begin_container, filled]
  rfl

theorem write_entries_eq {kind : Kind} {sent : List (Key × Fields)} (kinds : ∀ pair ∈ sent, kind = Key.kind pair.1) :
    write_entries kind sent = .ok (.raw .readOnly ⟨kind.type, cut (entriesBuffer sent)⟩) := by
  have filled := foldlM_write_variant (fun pair : Key × Fields => (pair.1, packFields pair.2)) kinds []
  simp only [write_entries, begin_container, write_fields_eq]
  exact congrArg (· >>= finish) filled

/-- `FinishRound` never throws. -/
theorem finish_round_eq (keyType : KeyType K W) (kinds : ∀ key, keyType.kind = Key.kind (keyType.spell key)) (cache : Cache K) :
    finish_round keyType cache = .ok
      (.raw .readOnly ⟨keyType.kind.type,
        cut (entriesBuffer ((outcome keyType cache).sent.map (fun pair => (keyType.spell pair.1, pair.2))))⟩,
        (outcome keyType cache).removed, closed keyType cache) := by
  have spelled : ∀ pair ∈ (outcome keyType cache).sent.map (fun pair => (keyType.spell pair.1, pair.2)),
      keyType.kind = Key.kind pair.1 := by
    intro pair member
    obtain ⟨sent, -, rfl⟩ := List.mem_map.mp member
    exact kinds sent.1
  rw [finish_round, write_entries_eq spelled]
  rfl

/-! ## Reading it -/

theorem cut_short {buffer : Bytes} (fits : buffer.length < 2 ^ 32) : cut buffer = buffer := by
  rw [cut, Nat.mod_eq_of_lt fits, List.take_length]

theorem packFields_encodable (fields : Fields) : Encodable (packFields fields) := by
  refine ⟨fun empty => absurd empty (kind_type_ne_empty .index), ?_⟩
  have short : (cut (fieldsBuffer fields)).length ≤ (fieldsBuffer fields).length % 2 ^ 32 := List.length_take_le _ _
  exact Nat.lt_of_le_of_lt short (Nat.mod_lt _ (by decide))

theorem raw_entries_entriesBuffer {kind : Kind} {sent : List (Key × Fields)}
    (keys : ∀ pair ∈ sent, KeyFits kind pair.1 ∧ pair.1.stored = pair.1) (fits : (entriesBuffer sent).length < 2 ^ 32) :
    raw_entries kind (cut (entriesBuffer sent)) = (sent.map (fun pair => (pair.1, packFields pair.2)), .pending []) := by
  have spelled : entriesBuffer sent = (sent.map (fun pair => (pair.1, packFields pair.2))).flatMap write_entry := by
    rw [entriesBuffer, List.flatMap_map]
    apply List.flatMap_congr
    intro pair member
    rw [(keys pair member).2]
  rw [cut_short fits, spelled]
  apply raw_entries_written
  intro pair member
  obtain ⟨source, found, rfl⟩ := List.mem_map.mp member
  exact ⟨(keys source found).1, packFields_encodable source.2⟩

end Cache

end TaskExplorer.VariantCache
