import TaskExplorer.VariantEdit

/-!
# Reading a variant

A container is made from its payload when a reader first needs it, and kept. The
readers give what they gave at first as long as three things do not happen: a
payload is opened that cannot be read to its end (what was read of it stays
behind as the container), `At` is used for a key that a MAP or INDEX does not have
(it is there from now on), and `Find` or `ReadRawMap`, `ReadRawIMap` are used again
on a payload that was opened meanwhile and is not in the order of the map.

Every place of a variant has its own container here. Where the program shares one
between places, reading it at one of them is here the same read at all of them.
-/

namespace TaskExplorer.VariantRead
open Codec OrderedMap Transition VariantFormat VariantContainer
open VariantValue VariantBuild VariantEdit

/-! ## Readers -/

/-- What `At` and `operator[]` take. -/
inductive Place where
  | name (name : Bytes)
  | index (index : UInt32)
deriving DecidableEq

inductive Reader where
  /-- `GetType`, `GetSize` and `GetData`. -/
  | value
  | count
  | has (place : Place)
  | key (index : UInt32)
  | id (index : UInt32)
  | get (place : Place)
  | find (place : Place)
  /-- `ReadRawMap`, `ReadRawList` and `ReadRawIMap`. -/
  | readRaw (kind : Kind)
  | mkPayload
  | toPacket

inductive Answer where
  | value (packed : Packed)
  | absent
  | number (count : Nat)
  | truth (holds : Bool)
  | text (name : Bytes)
  | index (id : UInt32)
  /-- What the callback was given, and the exception that ended the loop. -/
  | seen (entries : List (Key × Packed)) (raised : Option CException)
  | bytes (bytes : Bytes)
  | order (order : Ordering)
  /-- A buffer that is being written to was taken for a container. -/
  | undefined
deriving DecidableEq

abbrev Outcome := Except CException Answer

/-- The type and the payload that a variant has of its own. -/
def header (variant : Variant) : Packed := ⟨variant.type, variant.payload⟩

def has (variant : Variant) : Place → Except CException Bool
  | .name name => has_name variant name
  | .index index => has_index variant index

/-- `SVariant::At`, which puts an EMPTY under a key that a MAP or INDEX does not have. -/
def child_at (variant : Variant) : Place → Except CException (Variant × Variant)
  | .name name => child_name variant name
  | .index index => child_index variant index

def get (variant : Variant) (place : Place) : Outcome := do
  let present ← has variant place
  if present then
    let (_, child) ← child_at variant place
    return .value (header child)
  else return .absent

def Place.kind : Place → Kind
  | .name _ => .map
  | .index _ => .index

def Place.key : Place → Key
  | .name text => .name (c_str text)
  | .index value => .id value

/-- `Find` looks into the payload if there is no container yet. -/
def find_in (variant : Variant) (place : Place) : Outcome :=
  if variant.type ≠ place.kind.type then .ok .absent
  else
    match variant with
    | .raw _ packed => do
      let found ← find_raw place.kind packed.payload place.key
      return found.elim .absent .value
    | variant => get variant place

def raised : Tail CException → Option CException
  | .pending _ => none
  | .failed raised => some raised

/-- So do the loops with a callback. -/
def read_raw (kind : Kind) (variant : Variant) : Answer :=
  if variant.type ≠ kind.type then .truth false
  else
    match variant with
    | .raw _ packed => .seen (raw_entries kind packed.payload).1 (raised (raw_entries kind packed.payload).2)
    | .opened _ _ _ entries => .seen (entries.map (fun pair => (pair.1, header pair.2))) none
    | .writing _ _ => .undefined

def answer (variant : Variant) : Reader → Outcome
  | .value => .ok (.value (header variant))
  | .count => (count variant).map .number
  | .has place => (has variant place).map .truth
  | .key index => (key variant index).map .text
  | .id index => (id variant index).map .index
  | .get place => get variant place
  | .find place => find_in variant place
  | .readRaw kind => .ok (read_raw kind variant)
  | .mkPayload => (mk_payload variant).map .bytes
  | .toPacket => (to_packet_variant variant).map .bytes

/-! ## What they leave behind -/

/-- The container is set before the loop that fills it, and stays as it is when the
    loop raises an exception. -/
def published (kind : Kind) : Variant → Variant
  | .raw access packed =>
    .opened access kind packed.payload ((parse kind packed.payload).1.map (fun pair => (pair.1, .raw .readOnly pair.2)))
  | variant => variant

/-- The readers that ask for the container of a kind. -/
def Reader.opens : Reader → Kind → Bool
  | .count, _ => true
  | .has (.name _), kind | .get (.name _), kind | .key _, kind => kind = .map
  | .has (.index _), kind | .get (.index _), kind => kind ≠ .map
  | .id _, kind => kind = .index
  | _, _ => false

mutual
/-- `MkPayload` opens the read-write containers, up to the first that it cannot. -/
def made (variant : Variant) : Variant :=
  match variant with
  | .raw .readWrite packed =>
    match kindOf packed.type with
    | some kind => published kind (.raw .readWrite packed)
    | none => .raw .readWrite packed
  | .opened .readWrite kind payload entries => .opened .readWrite kind payload (made_entries entries)
  | variant => variant

def made_entries : List (Key × Variant) → List (Key × Variant)
  | [] => []
  | (key, child) :: rest =>
    match mk_payload child with
    | .ok _ => (key, made child) :: made_entries rest
    | .error _ => (key, made child) :: rest
end

def after (variant : Variant) : Reader → Variant
  | .mkPayload | .toPacket => made variant
  | reader =>
    match kindOf variant.type with
    | some kind => if reader.opens kind then published kind variant else variant
    | none => variant

/-! ## Reading below a variant -/

def replace_at (place : Place) (child : Variant) : Variant → Variant
  | .opened access .list payload entries =>
    match place with
    | .name _ => .opened access .list payload entries
    | .index index => .opened access .list payload (entries.modify index.toNat (fun pair => (pair.1, child)))
  | .opened access kind payload entries => .opened access kind payload (replace place.key child entries)
  | variant => variant

/-- A reader behind a row of `At`s. -/
def visit : List Place → Reader → Variant → Variant × Outcome
  | [], reader, variant => (after variant reader, answer variant reader)
  | place :: rest, reader, variant =>
    match child_at variant place with
    | .error raised => (after variant (.has place), .error raised)
    | .ok (later, child) =>
      let result := visit rest reader child
      (replace_at place result.1 later, result.2)

/-- A place below one of the variants. -/
structure Site where
  object : Nat
  path : List Place

def read_site (pool : List Variant) (site : Site) (reader : Reader) : Option (List Variant × Outcome) :=
  (pool[site.object]?).map (fun variant =>
    let result := visit site.path reader variant
    (pool.set site.object result.1, result.2))

/-- `CBuffer::Compare`. -/
def compare_buffers (left right : Bytes) : Ordering :=
  if left.length < right.length then .lt
  else if left.length > right.length then .gt
  else compareOfLessAndEq left right

def compare_answers : Answer → Answer → Answer
  | .bytes left, .bytes right => .order (compare_buffers left right)
  | _, _ => .undefined

inductive Read where
  | one (site : Site) (reader : Reader)
  | compare (left right : Site)

/-- Readers one after the other, up to the first exception. -/
def read_all : List Variant → List (Site × Reader) → Option (List Variant × Except CException (List Answer))
  | pool, [] => some (pool, .ok [])
  | pool, (site, reader) :: rest =>
    match read_site pool site reader with
    | none => none
    | some (later, .error raised) => some (later, .error raised)
    | some (later, .ok answer) =>
      (read_all later rest).map (fun result => (result.1, result.2.map (fun answers => answer :: answers)))

/-- `Compare` first gets to its two variants. -/
def Read.steps : Read → List (Site × Reader)
  | .one site reader => [(site, reader)]
  | .compare left right => [(left, .value), (right, .value), (left, .mkPayload), (right, .mkPayload)]

def Read.conclude : List Answer → Answer
  | [answer] => answer
  | [_, _, left, right] => compare_answers left right
  | _ => .undefined

/-- The variants after a read, and its outcome; nothing if there is no such variant. -/
def perform (pool : List Variant) (read : Read) : Option (List Variant × Outcome) :=
  (read_all pool read.steps).map (fun result => (result.1, result.2.map Read.conclude))

def step (pool : List Variant) (read : Read) : Option (List Variant) := (perform pool read).map Prod.fst

def outcome (pool : List Variant) (read : Read) : Option Outcome := (perform pool read).map Prod.snd

/-! ## When reading leaves a variant as it was -/

/-- The payload can be read to its end, if there is a container to be made from it. -/
def Whole : Variant → Prop
  | .raw _ packed => ∀ kind, kindOf packed.type = some kind → (parse kind packed.payload).2 = none
  | _ => True

mutual
/-- The same of every container that `MkPayload` opens. -/
def Encodes : Variant → Prop
  | .raw .readWrite packed => Whole (.raw .readWrite packed)
  | .opened .readWrite _ _ entries => EncodesAll entries
  | _ => True

def EncodesAll : List (Key × Variant) → Prop
  | [] => True
  | (_, child) :: rest => Encodes child ∧ EncodesAll rest
end

def SoundReader (variant : Variant) : Reader → Prop
  | .mkPayload | .toPacket => Encodes variant
  | reader => ∀ kind, kindOf variant.type = some kind → reader.opens kind → Whole variant

/-- Every payload on the way is whole, and no `At` adds a key. -/
def Sound : List Place → Reader → Variant → Prop
  | [], reader, variant => SoundReader variant reader
  | place :: rest, reader, variant =>
    SoundReader variant (.has place) ∧
      ∀ later child, child_at variant place = .ok (later, child) → has variant place = .ok true ∧ Sound rest reader child

/-- The variant that a row of `At`s leads to. -/
def node : List Place → Variant → Option Variant
  | [], variant => some variant
  | place :: rest, variant =>
    match child_at variant place with
    | .ok (_, child) => node rest child
    | .error _ => none

/-- `Find` and the loops with a callback see the same in the payload as in the
    container that was made from it meanwhile. -/
def SameSeen (reader : Reader) (first later : Variant) : Prop :=
  match reader, first, later with
  | .readRaw kind, .raw _ packed, .opened _ _ _ _ => Arranged kind (raw_entries kind packed.payload).1
  | .find place, .raw _ packed, .opened _ _ _ _ =>
    ∀ pair ∈ (raw_entries place.kind packed.payload).1, pair.1.stored = pair.1
  | _, _, _ => True

def Kept (path : List Place) (reader : Reader) (first later : Variant) : Prop :=
  ∀ before now, node path first = some before → node path later = some now → SameSeen reader before now

/-- A read that opens only whole payloads, adds no key and does not look at a payload
    in another order than the map's after it was opened. -/
def Allowed (first pool : List Variant) : Read → Prop
  | .one site reader => ∀ before now, first[site.object]? = some before → pool[site.object]? = some now →
      Sound site.path reader before ∧ Kept site.path reader before now
  | .compare left right => ∀ site, site = left ∨ site = right → ∀ before, first[site.object]? = some before →
      Sound site.path .mkPayload before

/-! ## Containers opened meanwhile -/

mutual
/-- The later variant has some of the first one's containers made. -/
inductive Opened : Variant → Variant → Prop where
  | same (variant : Variant) : Opened variant variant
  | parsed {access : EAccess} {packed : Packed} {kind : Kind} {entries : List (Key × Packed)} {later : List (Key × Variant)}
      (known : kindOf packed.type = some kind) (loaded : load kind packed.payload = .ok entries)
      (children : OpenedAll (entries.map (fun pair => (pair.1, .raw .readOnly pair.2))) later) :
      Opened (.raw access packed) (.opened access kind packed.payload later)
  | inside {access : EAccess} {kind : Kind} {payload : Bytes} {entries later : List (Key × Variant)}
      (children : OpenedAll entries later) : Opened (.opened access kind payload entries) (.opened access kind payload later)

inductive OpenedAll : List (Key × Variant) → List (Key × Variant) → Prop where
  | nil : OpenedAll [] []
  | cons (key : Key) {child later : Variant} {rest others : List (Key × Variant)} (head : Opened child later)
      (tail : OpenedAll rest others) : OpenedAll ((key, child) :: rest) ((key, later) :: others)
end

theorem OpenedAll.refl (entries : List (Key × Variant)) : OpenedAll entries entries := by
  induction entries with
  | nil => exact .nil
  | cons pair rest ih => exact .cons pair.1 (.same pair.2) ih

variable {entries : List (Key × Variant)} {first later : Variant} {reader : Reader} {place : Place}

theorem OpenedAll.keyed {later : List (Key × Variant)} (opened : OpenedAll entries later) :
    List.Forall₂ (Keyed Opened) entries later := by
  induction entries generalizing later with
  | nil =>
    cases opened
    exact .nil
  | cons pair rest ih =>
    cases opened with
    | cons key head tail => exact .cons ⟨rfl, head⟩ (ih tail)

theorem OpenedAll.of_keyed {later : List (Key × Variant)} (related : List.Forall₂ (Keyed Opened) entries later) :
    OpenedAll entries later := by
  induction related with
  | nil => exact .nil
  | cons head tail ih =>
    rename_i left right lefts rights
    obtain ⟨key, child⟩ := left
    obtain ⟨otherKey, other⟩ := right
    obtain ⟨rfl, good⟩ := head
    exact .cons key good ih

theorem Opened.header (opened : Opened first later) : header first = header later := by
  cases opened with
  | same => rfl
  | parsed known loaded children => simp [VariantRead.header, Variant.type, Variant.payload, type_of_kindOf known]
  | inside children => rfl

theorem Opened.type (opened : Opened first later) : first.type = later.type :=
  congrArg Packed.type opened.header

theorem Opened.payload (opened : Opened first later) : first.payload = later.payload :=
  congrArg Packed.payload opened.header

theorem load_whole {kind : Kind} {payload : Bytes} (whole : (parse kind payload).2 = none) :
    load kind payload = .ok (parse kind payload).1 := by
  unfold load
  split
  · rename_i entries parsed
    rw [parsed]
  · rename_i entries raised parsed
    rw [parsed] at whole
    cases whole

theorem Opened.container (opened : Opened first later) {kind : Kind} (known : kindOf first.type = some kind)
    (whole : Whole first) :
    (∃ raised, container kind first = .error raised ∧ container kind later = .error raised) ∨
      ∃ entries others, container kind first = .ok entries ∧ container kind later = .ok others ∧
        List.Forall₂ (Keyed Opened) entries others := by
  cases opened with
  | same =>
    cases made : VariantValue.container kind first with
    | error raised => exact .inl ⟨raised, rfl, rfl⟩
    | ok entries => exact .inr ⟨entries, entries, rfl, rfl, (OpenedAll.refl entries).keyed⟩
  | parsed sameKind loaded children =>
    cases sameKind.symm.trans known
    refine .inr ⟨_, _, ?_, rfl, children.keyed⟩
    rw [VariantValue.container, loaded]
    rfl
  | inside children => exact .inr ⟨_, _, rfl, rfl, children.keyed⟩

theorem Opened.published (opened : Opened first later) {kind : Kind} (known : kindOf first.type = some kind)
    (whole : Whole first) : Opened first (published kind later) := by
  cases opened with
  | same =>
    cases first with
    | raw access packed => exact .parsed known (load_whole (whole kind known)) (OpenedAll.refl _)
    | opened access kind payload entries => exact .same _
    | writing kind buffer => exact .same _
  | parsed sameKind loaded children => exact .parsed sameKind loaded children
  | inside children => exact .inside children

/-! ### Payloads -/

theorem mk_payload_frozen {variant : Variant} (frozen : variant.access ≠ .readWrite) : mk_payload variant = .ok variant.payload := by
  cases variant with
  | raw access packed =>
    cases access with
    | readWrite => exact absurd rfl frozen
    | readOnly => rfl
    | writeOnly => rfl
    | derived => rfl
  | opened access kind payload entries =>
    cases access with
    | readWrite => exact absurd rfl frozen
    | readOnly => rfl
    | writeOnly => rfl
    | derived => rfl
  | writing kind buffer => rfl

theorem Opened.access (opened : Opened first later) : first.access = later.access := by
  cases opened with
  | same => rfl
  | parsed known loaded children => rfl
  | inside children => rfl

theorem mk_entries_parsed {pairs : List (Key × Packed)} {later : List (Key × Variant)}
    (children : OpenedAll (pairs.map (fun pair => (pair.1, .raw .readOnly pair.2))) later) :
    mk_entries later = .ok (pairs.flatMap write_entry) := by
  induction pairs generalizing later with
  | nil =>
    cases children
    rfl
  | cons pair rest ih =>
    cases children with
    | cons key head tail =>
      rename_i child others
      have frozen : child.access ≠ .readWrite := by
        rw [← head.access]
        exact fun same => by cases same
      have same : (⟨child.type, child.payload⟩ : Packed) = pair.2 := head.header.symm
      simp only [mk_entries, mk_payload_frozen frozen, ih tail, bind, Except.bind, same, List.flatMap_cons]
      rfl

theorem Opened.mk_frozen (opened : Opened first later) (frozen : first.access ≠ .readWrite) :
    mk_payload first = mk_payload later := by
  have stays : later.access ≠ .readWrite := by
    rw [← opened.access]
    exact frozen
  rw [mk_payload_frozen frozen, mk_payload_frozen stays]
  exact congrArg (fun packed => Except.ok packed.payload) opened.header

mutual
theorem Opened.mk_payload {first later : Variant} : Opened first later → mk_payload first = mk_payload later
  | .same _ => rfl
  | @Opened.parsed access packed kind entries later known loaded children => by
    by_cases writable : access = .readWrite
    · subst writable
      rw [VariantValue.mk_payload, VariantValue.mk_payload, known, mk_entries_parsed children]
      simp only [loaded, bind, Except.bind, pure, Except.pure]
    · exact Opened.mk_frozen (.parsed known loaded children) writable
  | @Opened.inside access kind payload entries later children => by
    by_cases writable : access = .readWrite
    · subst writable
      rw [VariantValue.mk_payload, VariantValue.mk_payload]
      exact children.mk_entries
    · exact Opened.mk_frozen (.inside children) writable

theorem OpenedAll.mk_entries {first later : List (Key × Variant)} : OpenedAll first later → mk_entries first = mk_entries later
  | .nil => rfl
  | .cons key head tail => by
    rw [VariantValue.mk_entries, VariantValue.mk_entries, head.mk_payload, tail.mk_entries, head.type]
end

theorem made_frozen {variant : Variant} (frozen : variant.access ≠ .readWrite) : made variant = variant := by
  cases variant with
  | raw access packed =>
    cases access with
    | readWrite => exact absurd rfl frozen
    | readOnly => simp [made]
    | writeOnly => simp [made]
    | derived => simp [made]
  | opened access kind payload entries =>
    cases access with
    | readWrite => exact absurd rfl frozen
    | readOnly => simp [made]
    | writeOnly => simp [made]
    | derived => simp [made]
  | writing kind buffer => simp [made]

mutual
/-- `MkPayload` opens containers, and nothing else. -/
theorem opened_made : ∀ variant : Variant, Encodes variant → Opened variant (made variant)
  | .raw access packed, encodes => by
    by_cases writable : (Variant.raw access packed).access = .readWrite
    · cases writable
      rw [made]
      cases known : kindOf packed.type with
      | none => exact .same _
      | some kind => exact (Opened.same _).published known encodes
    · rw [made_frozen writable]
      exact .same _
  | .opened access kind payload entries, encodes => by
    by_cases writable : (Variant.opened access kind payload entries).access = .readWrite
    · cases writable
      rw [made]
      exact .inside (opened_made_entries entries encodes)
    · rw [made_frozen writable]
      exact .same _
  | .writing kind buffer, encodes => by
    rw [made_frozen (fun same => by cases same)]
    exact .same _

theorem opened_made_entries : ∀ entries : List (Key × Variant), EncodesAll entries → OpenedAll entries (made_entries entries)
  | [], encodes => by
    rw [made_entries]
    exact .nil
  | (key, child) :: rest, encodes => by
    rw [made_entries]
    cases mk_payload child with
    | ok payload => exact .cons key (opened_made child encodes.1) (opened_made_entries rest encodes.2)
    | error raised => exact .cons key (opened_made child encodes.1) (OpenedAll.refl rest)
end

theorem encodes_parsed (pairs : List (Key × Packed)) : EncodesAll (pairs.map (fun pair => (pair.1, .raw .readOnly pair.2))) := by
  induction pairs with
  | nil => trivial
  | cons pair rest ih => exact ⟨trivial, ih⟩

mutual
theorem Opened.made {first later : Variant} : Opened first later → Encodes first → Opened first (made later)
  | .same variant, encodes => opened_made variant encodes
  | @Opened.parsed access packed kind entries later known loaded children, encodes => by
    by_cases writable : (Variant.opened access kind packed.payload later).access = .readWrite
    · cases writable
      rw [VariantRead.made]
      exact .parsed known loaded (children.made (encodes_parsed entries))
    · rw [made_frozen writable]
      exact .parsed known loaded children
  | @Opened.inside access kind payload entries later children, encodes => by
    by_cases writable : (Variant.opened access kind payload later).access = .readWrite
    · cases writable
      rw [VariantRead.made]
      exact .inside (children.made encodes)
    · rw [made_frozen writable]
      exact .inside children

theorem OpenedAll.made {first later : List (Key × Variant)} : OpenedAll first later → EncodesAll first →
    OpenedAll first (made_entries later)
  | .nil, encodes => by
    rw [made_entries]
    exact .nil
  | @OpenedAll.cons key child other rest others head tail, encodes => by
    rw [made_entries]
    cases mk_payload other with
    | ok payload => exact .cons key (head.made encodes.1) (tail.made encodes.2)
    | error raised => exact .cons key (head.made encodes.1) tail
end

/-! ### One reader -/

theorem Opened.after (opened : Opened first later) (sound : SoundReader first reader) :
    Opened first (after later reader) := by
  have plain (opens : ∀ kind, kindOf first.type = some kind → reader.opens kind → Whole first) :
      Opened first (match kindOf later.type with
        | some kind => if reader.opens kind then VariantRead.published kind later else later
        | none => later) := by
    rw [← opened.type]
    cases known : kindOf first.type with
    | none => exact opened
    | some kind =>
      by_cases asks : reader.opens kind
      · simp only [asks, if_true]
        exact opened.published known (opens kind known asks)
      · simp only [asks]
        exact opened
  cases reader with
  | mkPayload => exact opened.made sound
  | toPacket => exact opened.made sound
  | value => exact plain sound
  | count => exact plain sound
  | has place => exact plain sound
  | key index => exact plain sound
  | id index => exact plain sound
  | get place => exact plain sound
  | find place => exact plain sound
  | readRaw kind => exact plain sound

theorem Opened.reads (opened : Opened first later) {kind : Kind} (known : kindOf first.type = some kind)
    (whole : Whole first) {α : Type} {compute : List (Key × Variant) → Except CException α}
    (same : ∀ entries others, List.Forall₂ (Keyed Opened) entries others → compute entries = compute others) :
    (VariantValue.container kind first >>= compute) = (VariantValue.container kind later >>= compute) := by
  rcases opened.container known whole with ⟨raised, left, right⟩ | ⟨entries, others, left, right, related⟩
  · rw [left, right]
  · rw [left, right]
    exact same entries others related

theorem Opened.count (opened : Opened first later) (sound : SoundReader first .count) : count first = count later := by
  unfold VariantEdit.count
  rw [← opened.type]
  cases known : kindOf first.type with
  | none => rfl
  | some kind =>
    refine opened.reads known (sound kind known rfl) ?_
    intro entries others related
    rw [related.length_eq]

theorem Opened.has (opened : Opened first later) (sound : SoundReader first (.has place)) :
    has first place = has later place := by
  cases place with
  | name name =>
    simp only [VariantRead.has, has_name]
    rw [← opened.type]
    cases known : kindOf first.type with
    | none => rfl
    | some kind =>
      cases kind with
      | list => rfl
      | index => rfl
      | map =>
        refine opened.reads known (sound _ known rfl) ?_
        intro entries others related
        rw [isSome_keyed related]
  | index index =>
    simp only [VariantRead.has, has_index]
    rw [← opened.type]
    cases known : kindOf first.type with
    | none => rfl
    | some kind =>
      cases kind with
      | map => rfl
      | list =>
        refine opened.reads known (sound _ known rfl) ?_
        intro entries others related
        rw [related.length_eq]
      | index =>
        refine opened.reads known (sound _ known rfl) ?_
        intro entries others related
        rw [isSome_keyed related]

theorem Opened.key (opened : Opened first later) {index : UInt32} (sound : SoundReader first (.key index)) :
    key first index = key later index := by
  unfold VariantEdit.key
  rw [← opened.type]
  cases known : kindOf first.type with
  | none => rfl
  | some kind =>
    cases kind with
    | list => rfl
    | index => rfl
    | map =>
      refine opened.reads known (sound _ known rfl) ?_
      intro entries others related
      rcases getElem?_keyed related index.toNat with ⟨left, right⟩ | ⟨name, child, other, left, right, -⟩
      · rw [left, right]
      · rw [left, right]
        cases name <;> rfl

theorem Opened.id (opened : Opened first later) {index : UInt32} (sound : SoundReader first (.id index)) :
    id first index = id later index := by
  unfold VariantEdit.id
  rw [← opened.type]
  cases known : kindOf first.type with
  | none => rfl
  | some kind =>
    cases kind with
    | list => rfl
    | map => rfl
    | index =>
      refine opened.reads known (sound _ known rfl) ?_
      intro entries others related
      rcases getElem?_keyed related index.toNat with ⟨left, right⟩ | ⟨name, child, other, left, right, -⟩
      · rw [left, right]
      · rw [left, right]
        cases name <;> rfl

/-! ### One level down -/

variable {others : List (Key × Variant)}

theorem opened_container {kind : Kind} (known : kindOf first.type = some kind)
    (contained : VariantValue.container kind first = .ok entries) (related : List.Forall₂ (Keyed Opened) entries others)
    : Opened first (.opened first.access kind first.payload others) := by
  cases first with
  | raw access packed =>
    cases loaded : load kind packed.payload with
    | error raised =>
      rw [VariantValue.container, loaded] at contained
      cases contained
    | ok pairs =>
      rw [VariantValue.container, loaded] at contained
      cases contained
      exact .parsed known loaded (.of_keyed related)
  | opened access other payload children =>
    have same : other = kind := Option.some.inj ((kindOf_type other).symm.trans known)
    subst same
    cases contained
    exact .inside (.of_keyed related)
  | writing other buffer => cases contained

theorem related_replace (related : List.Forall₂ (Keyed Opened) entries others) {key : Key} {child : Variant}
    (found : find key entries = some child) (opened : Opened child later) :
    List.Forall₂ (Keyed Opened) entries (replace key later others) := by
  induction related with
  | nil => cases found
  | cons head tail ih =>
    rename_i left right lefts rights
    obtain ⟨leftKey, leftChild⟩ := left
    obtain ⟨rightKey, rightChild⟩ := right
    obtain ⟨rfl, good⟩ := head
    by_cases here : leftKey = key
    · simp only [find, here, if_true, Option.some.injEq] at found
      subst found here
      simp only [replace, if_true]
      exact .cons ⟨rfl, opened⟩ tail
    · simp only [find, if_neg here] at found
      simp only [replace, if_neg here]
      exact .cons ⟨rfl, good⟩ (ih found)

theorem related_modify (related : List.Forall₂ (Keyed Opened) entries others) {index : Nat} {pair : Key × Variant}
    (there : entries[index]? = some pair) (opened : Opened pair.2 later) :
    List.Forall₂ (Keyed Opened) entries (others.modify index (fun pair => (pair.1, later))) := by
  induction related generalizing index with
  | nil => cases there
  | cons head tail ih =>
    cases index with
    | zero =>
      cases there
      exact .cons ⟨head.1, opened⟩ tail
    | succ index => exact .cons head (ih there)

/-- `At` leads to the same child, and what becomes of it can stand in its place. -/
def Descends (first later : Variant) (place : Place) : Prop :=
  ∃ one child other now, child_at first place = .ok (one, child) ∧ child_at later place = .ok (other, now) ∧ Opened child now ∧
    ∀ last, Opened child last → Opened first (replace_at place last other)

theorem Opened.descends_key (opened : Opened first later) {kind : Kind} (known : kindOf first.type = some kind)
    (whole : Whole first) (keyed : kind ≠ .list)
    (touches : ∀ variant, kindOf variant.type = some kind → child_at variant place = touch kind variant place.key)
    (contained : VariantValue.container kind first = .ok entries) (present : (find place.key entries).isSome) :
    Descends first later place := by
  have alsoKnown : kindOf later.type = some kind := by
    rw [← opened.type]
    exact known
  rcases opened.container known whole with ⟨raised, left, -⟩ | ⟨others, now, left, right, related⟩
  · rw [left] at contained
    cases contained
  · rw [contained] at left
    cases left
    rcases find_keyed related place.key with ⟨absent, -⟩ | ⟨child, nowChild, found, nowFound, good⟩
    · rw [absent] at present
      cases present
    · refine ⟨.opened first.access kind first.payload entries, child, .opened later.access kind later.payload now, nowChild, ?_, ?_, good, ?_⟩
      · simp only [touches first known, touch, contained, found, bind, Except.bind]
        rfl
      · simp only [touches later alsoKnown, touch, right, nowFound, bind, Except.bind]
        rfl
      · intro last follows
        have same := opened_container known contained (related_replace related found follows)
        rw [opened.access, opened.payload] at same
        cases kind with
        | list => exact absurd rfl keyed
        | map => exact same
        | index => exact same

theorem Opened.descends_item (opened : Opened first later) (known : kindOf first.type = some .list)
    (whole : Whole first) {index : UInt32} (contained : VariantValue.container .list first = .ok entries)
    (inside : index.toNat < entries.length) : Descends first later (.index index) := by
  have alsoKnown : kindOf later.type = some .list := by
    rw [← opened.type]
    exact known
  rcases opened.container known whole with ⟨raised, left, -⟩ | ⟨others, now, left, right, related⟩
  · rw [left] at contained
    cases contained
  · rw [contained] at left
    cases left
    rcases getElem?_keyed related index.toNat with ⟨absent, -⟩ | ⟨key, child, nowChild, found, nowFound, good⟩
    · rw [List.getElem?_eq_none_iff] at absent
      omega
    · refine ⟨.opened first.access .list first.payload entries, child, .opened later.access .list later.payload now, nowChild, ?_, ?_, good, ?_⟩
      · simp only [child_at, child_index, known, contained, found, bind, Except.bind]
        rfl
      · simp only [child_at, child_index, alsoKnown, right, nowFound, bind, Except.bind]
        rfl
      · intro last follows
        have same := opened_container known contained (related_modify related found follows)
        rw [opened.access, opened.payload] at same
        exact same

theorem Opened.descends (opened : Opened first later) (sound : SoundReader first (.has place))
    (present : VariantRead.has first place = .ok true) : Descends first later place := by
  cases place with
  | name name =>
    simp only [VariantRead.has, has_name] at present
    split at present
    · rename_i known
      cases contained : VariantValue.container .map first with
      | error raised => simp [contained, bind, Except.bind] at present
      | ok entries =>
        simp only [contained, bind, Except.bind, pure, Except.pure, Except.ok.injEq] at present
        refine opened.descends_key known (sound _ known rfl) (by decide) ?_ contained present
        intro variant isMap
        simp only [child_at, child_name, isMap]
        rfl
    · cases present
  | index index =>
    simp only [VariantRead.has, has_index] at present
    split at present
    · rename_i known
      cases contained : VariantValue.container .index first with
      | error raised => simp [contained, bind, Except.bind] at present
      | ok entries =>
        simp only [contained, bind, Except.bind, pure, Except.pure, Except.ok.injEq] at present
        refine opened.descends_key known (sound _ known rfl) (by decide) ?_ contained present
        intro variant isIndex
        simp only [child_at, child_index, isIndex]
        rfl
    · rename_i known
      cases contained : VariantValue.container .list first with
      | error raised => simp [contained, bind, Except.bind] at present
      | ok entries =>
        simp only [contained, bind, Except.bind, pure, Except.pure, Except.ok.injEq, decide_eq_true_eq] at present
        exact opened.descends_item known (sound _ known rfl) contained present
    · cases present

/-- `At` raises the same exception. -/
theorem Opened.child_raised (opened : Opened first later) (sound : SoundReader first (.has place)) {raised : CException}
    (failed : child_at first place = .error raised) : child_at later place = .error raised := by
  have touched {kind : Kind} (known : kindOf first.type = some kind) (whole : Whole first) {key : Key}
      (failed : touch kind first key = .error raised) : touch kind later key = .error raised := by
    rcases opened.container known whole with ⟨other, left, right⟩ | ⟨entries, others, left, right, related⟩
    · simp only [touch, left, right, bind, Except.bind] at failed ⊢
      exact failed
    · simp only [touch, left, bind, Except.bind] at failed
      split at failed <;> cases failed
  cases place with
  | name name =>
    simp only [child_at, child_name] at failed ⊢
    rw [← opened.type]
    split at failed
    · rename_i known
      exact touched known (sound _ known rfl) failed
    · exact failed
  | index index =>
    simp only [child_at, child_index] at failed ⊢
    rw [← opened.type]
    split at failed
    · rename_i known
      rcases opened.container known (sound _ known rfl) with ⟨other, left, right⟩ | ⟨entries, others, left, right, related⟩
      · simp only [left, right, bind, Except.bind] at failed ⊢
        exact failed
      · simp only [left, right, bind, Except.bind] at failed ⊢
        rcases getElem?_keyed related index.toNat with ⟨one, other⟩ | ⟨key, child, otherChild, one, other, -⟩
        · rw [one] at failed
          rw [other]
          exact failed
        · rw [one] at failed
          cases failed
    · rename_i known
      exact touched known (sound _ known rfl) failed
    · exact failed

theorem Opened.get (opened : Opened first later) (sound : SoundReader first (.has place)) :
    get first place = get later place := by
  unfold VariantRead.get
  rw [← opened.has sound]
  cases known : VariantRead.has first place with
  | error raised => rfl
  | ok present =>
    cases present with
    | false => rfl
    | true =>
      obtain ⟨one, child, other, now, left, right, good, -⟩ := opened.descends sound known
      simp only [left, right, bind, Except.bind, if_true, good.header]

/-! ### Payloads and the containers made from them -/

theorem headers_parsed {pairs : List (Key × Packed)} {later : List (Key × Variant)}
    (children : OpenedAll (pairs.map (fun pair => (pair.1, .raw .readOnly pair.2))) later) :
    later.map (fun pair => (pair.1, header pair.2)) = pairs := by
  induction pairs generalizing later with
  | nil =>
    cases children
    rfl
  | cons pair rest ih =>
    cases children with
    | cons key head tail =>
      rw [List.map_cons, ih tail, ← head.header]
      rfl

theorem headers_opened {later : List (Key × Variant)} (children : OpenedAll entries later) :
    entries.map (fun pair => (pair.1, header pair.2)) = later.map (fun pair => (pair.1, header pair.2)) := by
  induction entries generalizing later with
  | nil =>
    cases children
    rfl
  | cons pair rest ih =>
    cases children with
    | cons key head tail => rw [List.map_cons, List.map_cons, ih tail, head.header]

theorem Opened.read_raw (opened : Opened first later) {kind : Kind} (same : SameSeen (.readRaw kind) first later) :
    read_raw kind first = read_raw kind later := by
  have types := opened.type
  cases opened with
  | same => rfl
  | parsed known loaded children =>
    rename_i access packed other entries later
    unfold VariantRead.read_raw
    rw [← types]
    split
    · rfl
    · rename_i typed
      have sameKind : other = kind := by
        have recognised : packed.type = kind.type := by simpa [Variant.type] using typed
        rw [recognised, kindOf_type] at known
        exact (Option.some.inj known).symm
      subst sameKind
      obtain ⟨⟨rest, ended⟩, collected⟩ := load_ok_iff.mp loaded
      have arranged : Arranged other (raw_entries other packed.payload).1 := same
      rw [collect_of_arranged arranged] at collected
      simp only [headers_parsed children, collected, ended, raised]
  | inside children =>
    unfold VariantRead.read_raw
    rw [← types]
    split
    · rfl
    · simp only [headers_opened children]

theorem get_opened (access : EAccess) (payload : Bytes) (entries : List (Key × Variant)) (place : Place) :
    get (.opened access place.kind payload entries) place =
      .ok (((find place.key entries).map header).elim .absent .value) := by
  cases place with
  | name name =>
    cases found : find (.name (c_str name)) entries with
    | none =>
      simp [get, has, has_name, Variant.type, Place.kind, Place.key, VariantValue.container, found, bind, Except.bind, pure, Except.pure]
    | some child =>
      simp [get, has, has_name, child_at, child_name, touch, Variant.type, Place.kind, Place.key, VariantValue.container, found,
        bind, Except.bind, pure, Except.pure]
  | index index =>
    cases found : find (.id index) entries with
    | none =>
      simp [get, has, has_index, Variant.type, Place.kind, Place.key, VariantValue.container, found, bind, Except.bind, pure, Except.pure]
    | some child =>
      simp [get, has, has_index, child_at, child_index, touch, Variant.type, Place.kind, Place.key, VariantValue.container, found,
        bind, Except.bind, pure, Except.pure]

theorem Opened.find_in (opened : Opened first later) (same : SameSeen (.find place) first later) :
    find_in first place = find_in later place := by
  have types := opened.type
  have relation := opened
  cases opened with
  | same => rfl
  | parsed known loaded children =>
    rename_i access packed other entries later
    unfold VariantRead.find_in
    rw [← types]
    split
    · rfl
    · rename_i typed
      have sameKind : other = place.kind := by
        have recognised : packed.type = place.kind.type := by simpa [Variant.type] using typed
        rw [recognised, kindOf_type] at known
        exact (Option.some.inj known).symm
      subst sameKind
      have keyed : place.kind ≠ .list := by cases place <;> simp [Place.kind]
      have headers : (find place.key later).map VariantRead.header = find place.key entries := by
        rw [← headers_parsed children]
        exact (find_map place.key (fun _ child => VariantRead.header child) later).symm
      simp only [find_raw_loaded keyed loaded same, get_opened, headers, bind, Except.bind]
      rfl
  | inside children =>
    unfold VariantRead.find_in
    rw [← types]
    split
    · rfl
    · exact relation.get (fun _ _ _ => trivial)

theorem Opened.answer (opened : Opened first later) (sound : SoundReader first reader)
    (same : SameSeen reader first later) : answer first reader = answer later reader := by
  cases reader with
  | value => simp only [VariantRead.answer, opened.header]
  | count => simp only [VariantRead.answer, opened.count sound]
  | has place => simp only [VariantRead.answer, opened.has sound]
  | key index => simp only [VariantRead.answer, opened.key sound]
  | id index => simp only [VariantRead.answer, opened.id sound]
  | get place =>
    have sound : SoundReader first (.has place) := by
      cases place <;> exact sound
    exact opened.get sound
  | find place => exact opened.find_in same
  | readRaw kind => simp only [VariantRead.answer, opened.read_raw same]
  | mkPayload => simp only [VariantRead.answer, opened.mk_payload]
  | toPacket => simp only [VariantRead.answer, to_packet_variant, opened.mk_payload, opened.type]

/-! ## A row of `At`s and a reader -/

theorem Opened.visit {path : List Place} : ∀ {first later : Variant}, Opened first later →
    Sound path reader first → Kept path reader first later →
    (visit path reader first).2 = (visit path reader later).2 ∧ Opened first (visit path reader later).1 := by
  induction path with
  | nil =>
    intro first later opened sound kept
    exact ⟨opened.answer sound (kept first later rfl rfl), opened.after sound⟩
  | cons place rest ih =>
    intro first later opened sound kept
    obtain ⟨whole, below⟩ := sound
    cases reached : child_at first place with
    | error raised =>
      have alsoRaised := opened.child_raised whole reached
      simp only [VariantRead.visit, reached, alsoRaised]
      exact ⟨trivial, opened.after whole⟩
    | ok pair =>
      obtain ⟨present, sound⟩ := below pair.1 pair.2 reached
      obtain ⟨one, child, other, now, left, right, good, restores⟩ := opened.descends whole present
      rw [left] at reached
      cases reached
      have keptBelow : Kept rest reader child now := by
        intro before after atFirst atLater
        refine kept before after ?_ ?_
        · simp only [node, left, atFirst]
        · simp only [node, right, atLater]
      obtain ⟨same, follows⟩ := ih good sound keptBelow
      simp only [VariantRead.visit, left, right]
      exact ⟨same, restores _ follows⟩

/-! ## Pools of variants -/

/-- Containers were made in some of the variants. -/
def AllOpened (first pool : List Variant) : Prop := List.Forall₂ Opened first pool

theorem AllOpened.refl (pool : List Variant) : AllOpened pool pool := List.forall₂_same.mpr (fun variant _ => .same variant)

theorem AllOpened.set {first pool : List Variant} (opened : AllOpened first pool) {object : Nat} {before : Variant}
    (there : first[object]? = some before) (follows : Opened before later) :
    AllOpened first (pool.set object later) := by
  induction opened generalizing object with
  | nil => exact .nil
  | cons head tail ih =>
    cases object with
    | zero =>
      cases there
      exact .cons follows tail
    | succ object => exact .cons head (ih there)

theorem AllOpened.read_site {first pool : List Variant} (opened : AllOpened first pool) {site : Site}
    (allowed : ∀ before now, first[site.object]? = some before → pool[site.object]? = some now → Sound site.path reader before ∧ Kept site.path reader before now)
    :
    (read_site pool site reader).map Prod.snd = (read_site first site reader).map Prod.snd ∧
      ∀ later result, read_site pool site reader = some (later, result) → AllOpened first later := by
  unfold VariantRead.read_site
  cases there : first[site.object]? with
  | none =>
    have beyond : pool[site.object]? = none := by
      rw [List.getElem?_eq_none_iff] at there ⊢
      rw [← opened.length_eq]
      exact there
    rw [beyond]
    exact ⟨rfl, fun later result impossible => by cases impossible⟩
  | some before =>
    obtain ⟨now, nowThere, good⟩ := ListEdits.forall₂_getElem? opened there
    obtain ⟨sound, kept⟩ := allowed before now there nowThere
    obtain ⟨same, follows⟩ := good.visit sound kept
    rw [nowThere]
    refine ⟨congrArg some same.symm, ?_⟩
    rintro later result found
    cases found
    exact opened.set there follows

theorem AllOpened.read_all {first : List Variant} {steps : List (Site × Reader)}
    (allowed : ∀ step ∈ steps, ∀ before now, first[step.1.object]? = some before →
      Sound step.1.path step.2 before ∧ Kept step.1.path step.2 before now) :
    ∀ {pool other : List Variant}, AllOpened first pool → AllOpened first other →
      (read_all pool steps).map Prod.snd = (read_all other steps).map Prod.snd ∧
        ∀ later result, read_all pool steps = some (later, result) → AllOpened first later := by
  induction steps with
  | nil =>
    intro pool other opened also
    refine ⟨rfl, ?_⟩
    rintro later result found
    cases found
    exact opened
  | cons head rest ih =>
    obtain ⟨site, reader⟩ := head
    intro pool other opened also
    have allowedHere := allowed (site, reader) (by simp)
    obtain ⟨samePool, followsPool⟩ := opened.read_site (fun before now there _ => allowedHere before now there)
    obtain ⟨sameOther, followsOther⟩ := also.read_site (fun before now there _ => allowedHere before now there)
    have same := samePool.trans sameOther.symm
    cases left : VariantRead.read_site pool site reader with
    | none =>
      rw [left] at same
      have right : VariantRead.read_site other site reader = none := by
        simpa using same.symm
      simp only [VariantRead.read_all, left, right]
      exact ⟨trivial, fun later result impossible => by cases impossible⟩
    | some pair =>
      obtain ⟨later, result⟩ := pair
      rw [left] at same
      obtain ⟨⟨others, sameResult⟩, right, equal⟩ := Option.map_eq_some_iff.mp same.symm
      simp only at equal
      subst equal
      cases sameResult with
      | error raised =>
        simp only [VariantRead.read_all, left, right]
        refine ⟨rfl, ?_⟩
        rintro last answers found
        cases found
        exact followsPool _ _ left
      | ok answer =>
        obtain ⟨sameRest, followsRest⟩ := ih (fun step member => allowed step (List.mem_cons_of_mem _ member))
          (followsPool _ _ left) (followsOther _ _ right)
        have outcomes (variants : List Variant) :
            ((VariantRead.read_all variants rest).map (fun result => (result.1, result.2.map (fun answers => answer :: answers)))).map
              Prod.snd = ((VariantRead.read_all variants rest).map Prod.snd).map (Except.map (fun answers => answer :: answers)) := by
          cases VariantRead.read_all variants rest <;> rfl
        simp only [VariantRead.read_all, left, right]
        refine ⟨by rw [outcomes, outcomes, sameRest], ?_⟩
        intro last answers found
        obtain ⟨⟨pool, result⟩, ran, equal⟩ := Option.map_eq_some_iff.mp found
        cases equal
        exact followsRest _ _ ran

/-! ## Whole runs -/

theorem kept_plain {path : List Place} (plain : reader = .value ∨ reader = .mkPayload) (first later : Variant) :
    Kept path reader first later := by
  intro before now _ _
  rcases plain with rfl | rfl
  · unfold SameSeen
    trivial
  · unfold SameSeen
    trivial

theorem sound_value {path : List Place} {variant : Variant} (sound : Sound path reader variant) :
    Sound path .value variant := by
  induction path generalizing variant with
  | nil =>
    intro kind known opens
    cases opens
  | cons place rest ih =>
    refine ⟨sound.1, fun later child reached => ?_⟩
    obtain ⟨present, below⟩ := sound.2 later child reached
    exact ⟨present, ih below⟩

theorem perform_one (pool : List Variant) (site : Site) (reader : Reader) :
    perform pool (.one site reader) = read_site pool site reader := by
  simp only [perform, Read.steps, read_all]
  cases read_site pool site reader with
  | none => rfl
  | some pair =>
    obtain ⟨later, result⟩ := pair
    cases result <;> rfl

theorem AllOpened.perform {first pool : List Variant} (opened : AllOpened first pool) {read : Read} (allowed : Allowed first pool read) :
    outcome pool read = outcome first read ∧ ∀ later, step pool read = some later → AllOpened first later := by
  cases read with
  | one site reader =>
    obtain ⟨same, follows⟩ := opened.read_site allowed
    simp only [outcome, step, perform_one]
    refine ⟨same, ?_⟩
    intro later moved
    obtain ⟨⟨pool, result⟩, found, rfl⟩ := Option.map_eq_some_iff.mp moved
    exact follows _ _ found
  | compare left right =>
    have steps : ∀ step ∈ (Read.compare left right).steps, ∀ before now, first[step.1.object]? = some before →
        Sound step.1.path step.2 before ∧ Kept step.1.path step.2 before now := by
      intro step member before now there
      simp only [Read.steps, List.mem_cons, List.not_mem_nil, or_false] at member
      rcases member with rfl | rfl | rfl | rfl
      · exact ⟨sound_value (allowed left (.inl rfl) before there), kept_plain (.inl rfl) before now⟩
      · exact ⟨sound_value (allowed right (.inr rfl) before there), kept_plain (.inl rfl) before now⟩
      · exact ⟨allowed left (.inl rfl) before there, kept_plain (.inr rfl) before now⟩
      · exact ⟨allowed right (.inr rfl) before there, kept_plain (.inr rfl) before now⟩
    obtain ⟨same, follows⟩ := AllOpened.read_all steps opened (AllOpened.refl first)
    have outcomes (variants : List Variant) : outcome variants (.compare left right) =
        ((VariantRead.read_all variants (Read.compare left right).steps).map Prod.snd).map (Except.map Read.conclude) := by
      simp only [outcome, VariantRead.perform]
      cases VariantRead.read_all variants (Read.compare left right).steps <;> rfl
    refine ⟨by rw [outcomes, outcomes, same], ?_⟩
    intro later moved
    obtain ⟨result, found, rfl⟩ := Option.map_eq_some_iff.mp moved
    obtain ⟨⟨last, answers⟩, ran, rfl⟩ := Option.map_eq_some_iff.mp found
    exact follows _ _ ran

/-- However many reads that meet the condition were made before, a read that meets
    it has the outcome it would have had as the first. -/
theorem reads_change_nothing {first pool : List Variant} (run : Run step (Allowed first) first pool) {read : Read}
    (allowed : Allowed first pool read) : outcome pool read = outcome first read := by
  have opened : AllOpened first pool :=
    Run.invariant (AllOpened first) (AllOpened.refl first) (fun before meets moved => (before.perform meets).2 _ moved) run
  exact (opened.perform allowed).1

def some_map : Variant := .raw .readOnly ⟨VAR_TYPE_MAP, write_entry (.name [97], ⟨VAR_TYPE_UINT, [7]⟩)⟩

def some_reads : List Read := [.one ⟨0, []⟩ .count, .one ⟨0, [.name [97]]⟩ .value, .one ⟨0, []⟩ (.readRaw .map)]

theorem some_map_entries : raw_entries .map some_map.payload = ([(.name [97], ⟨VAR_TYPE_UINT, [7]⟩)], .pending []) := by
  refine raw_entries_written .map [(.name [97], ⟨VAR_TYPE_UINT, [7]⟩)] ?_
  intro pair member
  cases List.mem_singleton.mp member
  refine ⟨?_, ?_, ?_⟩
  · show ([97] : Bytes).length < 256
    decide
  · exact fun empty => absurd empty (by decide)
  · simp

theorem some_map_whole : Whole some_map := by
  intro kind known
  cases known
  show (parse .map some_map.payload).2 = none
  rw [parse, some_map_entries]

theorem reads_change_nothing_map :
    ∃ pool, runs step [some_map] some_reads = some pool ∧ outcome pool (.one ⟨0, []⟩ .count) = some (.ok (.number 1)) ∧
      outcome pool (.one ⟨0, []⟩ (.readRaw .map)) = outcome [some_map] (.one ⟨0, []⟩ (.readRaw .map)) := by
  have raw (pool : List Variant) : Allowed [some_map] pool (.one ⟨0, []⟩ (.readRaw .map)) := by
    intro before now there nowThere
    cases there
    refine ⟨fun kind known opens => (by cases opens), ?_⟩
    intro before now left right
    cases left
    have arranged : Arranged .map (raw_entries .map some_map.payload).1 := by
      rw [some_map_entries]
      refine ⟨?_, fun _ => by simp [Sorted]⟩
      intro pair member
      cases List.mem_singleton.mp member
      refine ⟨?_, rfl⟩
      show ([97] : Bytes).length < 256
      decide
    cases now with
    | raw access packed => trivial
    | opened access kind payload entries => exact arranged
    | writing kind buffer => trivial
  have meets : Meets step (Allowed [some_map]) [some_map] some_reads := by
    refine ⟨?_, ?_, raw _, trivial⟩
    · intro before now there nowThere
      cases there
      refine ⟨fun kind known opens => some_map_whole, ?_⟩
      intro before now _ _
      unfold SameSeen
      trivial
    · intro before now there nowThere
      cases there
      refine ⟨⟨fun kind known opens => some_map_whole, ?_⟩, kept_plain (.inl rfl) _ _⟩
      intro later child reached
      exact ⟨rfl, fun kind known opens => (by cases opens)⟩
  exact ⟨_, rfl, by decide +kernel, reads_change_nothing (Run.of_runs .start meets rfl) (raw _)⟩

/-- A map with a name that ends too early is refused once and then has no entries,
    and a name that was looked up is there. -/
theorem read_changes_outcome :
    (∃ pool, step [.raw .readOnly ⟨VAR_TYPE_MAP, [5]⟩] (.one ⟨0, []⟩ .count) = some pool ∧
      outcome [.raw .readOnly ⟨VAR_TYPE_MAP, [5]⟩] (.one ⟨0, []⟩ .count) = some (.error { line := "invalid variant name" }) ∧
      outcome pool (.one ⟨0, []⟩ .count) = some (.ok (.number 0))) ∧
    (∃ pool, step [some_map] (.one ⟨0, [.name [98]]⟩ .value) = some pool ∧
      outcome [some_map] (.one ⟨0, []⟩ (.has (.name [98]))) = some (.ok (.truth false)) ∧
      outcome pool (.one ⟨0, []⟩ (.has (.name [98]))) = some (.ok (.truth true))) := by
  refine ⟨⟨_, rfl, ?_, ?_⟩, ⟨_, rfl, ?_, ?_⟩⟩
  · decide +kernel
  · decide +kernel
  · decide +kernel
  · decide +kernel

end TaskExplorer.VariantRead
