import TaskExplorer.Transition
import TaskExplorer.VariantBuild
import TaskExplorer.VariantReencode

/-!
# Editing a container

A read-write MAP or INDEX variant is a finite map, and a LIST variant a list, of
the trees of its children. The readers see that after every edit, and decoding
the packet gives it back. The one edit that does something else is `Remove` of an
index that a LIST has: the code runs on into the case for an INDEX and takes the
vector for a map.
-/

namespace TaskExplorer.VariantEdit
open ListEdits Codec OrderedMap Transition VariantFormat
open VariantContainer VariantValue VariantTree VariantBuild
open VariantReencode

/-! ## Readers -/

def outOfBound : CException := { line := "Index out of bound" }

def notMap : CException := { line := "Not a Map Variant" }

def notListIndex : CException := { line := "Not a List/Index Variant" }

def count (variant : Variant) : Except CException Nat :=
  match kindOf variant.type with
  | some kind => do
    let entries ← container kind variant
    return entries.length % 2 ^ 32
  | none => .ok 0

def has_name (variant : Variant) (name : Bytes) : Except CException Bool :=
  match kindOf variant.type with
  | some .map => do
    let entries ← container .map variant
    return (find (.name (c_str name)) entries).isSome
  | _ => .ok false

def has_index (variant : Variant) (index : UInt32) : Except CException Bool :=
  match kindOf variant.type with
  | some .index => do
    let entries ← container .index variant
    return (find (.id index) entries).isSome
  | some .list => do
    let entries ← container .list variant
    return index.toNat < entries.length
  | _ => .ok false

/-- The name at a place of the map's order. -/
def key (variant : Variant) (index : UInt32) : Except CException Bytes :=
  match kindOf variant.type with
  | some .map => do
    let entries ← container .map variant
    match entries[index.toNat]? with
    | some (.name text, _) => return c_str text
    | _ => throw outOfBound
  | _ => throw notMap

def id (variant : Variant) (index : UInt32) : Except CException UInt32 :=
  match kindOf variant.type with
  | some .index => do
    let entries ← container .index variant
    match entries[index.toNat]? with
    | some (.id value, _) => return value
    | _ => throw outOfBound
  | _ => throw notMap

/-! ## Edits -/

/-- A variant that was never given a value. -/
def empty : Variant := .raw .readWrite ⟨VAR_TYPE_EMPTY, []⟩

/-- `At` of a MAP or INDEX makes an EMPTY entry of a key that has none. -/
def touch (kind : Kind) (variant : Variant) (key : Key) : Except CException (Variant × Variant) := do
  let entries ← container kind variant
  match find key entries with
  | some child => return (.opened variant.access kind variant.payload entries, child)
  | none => return (.opened variant.access kind variant.payload (put key empty entries), empty)

/-- `SVariant::At`, which the readers and the writers share. -/
def child_name (variant : Variant) (name : Bytes) : Except CException (Variant × Variant) :=
  match kindOf variant.type with
  | some .map => touch .map variant (.name (c_str name))
  | _ => throw notMap

def child_index (variant : Variant) (index : UInt32) : Except CException (Variant × Variant) :=
  match kindOf variant.type with
  | some .list => do
    let entries ← container .list variant
    match entries[index.toNat]? with
    | some pair => return (.opened variant.access .list variant.payload entries, pair.2)
    | none => throw outOfBound
  | some .index => touch .index variant (.id index)
  | _ => throw notListIndex

/-- `Init` of a variant that is no container of the kind. -/
def init (kind : Kind) : Variant := .opened .readWrite kind [] []

def at_name (variant : Variant) (name : Bytes) : Except CException (Variant × Variant) := do
  if variant.access ≠ .readWrite then
    let present ← has_name variant name
    if !present then throw { line := "variant access violation; Map Member: %.*S is not present" }
  child_name (if variant.type = VAR_TYPE_MAP then variant else init .map) name

def at_index (variant : Variant) (index : UInt32) : Except CException (Variant × Variant) := do
  if variant.access ≠ .readWrite then
    let present ← has_index variant index
    if !present then throw { line := "variant access violation; index Member: 0x%08X is not present" }
  child_index (if variant.type = VAR_TYPE_INDEX ∨ variant.type = VAR_TYPE_LIST then variant else init .index) index

def get_name (variant : Variant) (name : Bytes) (default : Variant) : Except CException Variant := do
  let present ← has_name variant name
  if present then
    let (_, child) ← child_name variant name
    return child
  else return default

def get_index (variant : Variant) (index : UInt32) (default : Variant) : Except CException Variant := do
  let present ← has_index variant index
  if present then
    let (_, child) ← child_index variant index
    return child
  else return default

def remove_name (variant : Variant) (name : Bytes) : Except CException Variant :=
  match kindOf variant.type with
  | some .map => do
    let entries ← container .map variant
    return .opened variant.access .map variant.payload (erase (.name (c_str name)) entries)
  | _ => throw notMap

/-- No result: the vector that was shortened is used as a `std::map`. -/
def remove_index (variant : Variant) (index : UInt32) : Option (Except CException Variant) :=
  match kindOf variant.type with
  | some .list =>
    match container .list variant with
    | .error raised => some (.error raised)
    | .ok entries => if entries.length ≤ index.toNat then some (.error outOfBound) else none
  | some .index => some (do
    let entries ← container .index variant
    return .opened variant.access .index variant.payload (erase (.id index) entries))
  | _ => some (.error notListIndex)

inductive Edit where
  | insertName (name : Bytes) (value : Variant)
  | removeName (name : Bytes)
  | atName (name : Bytes)
  | insertIndex (index : UInt32) (value : Variant)
  | append (value : Variant)
  | removeIndex (index : UInt32)
  | atIndex (index : UInt32)

/-- The variant after an edit, and the child that `At` refers to. -/
def perform (variant : Variant) : Edit → Option (Except CException (Variant × Option Variant))
  | .insertName name value => some ((insert_name variant name value).map (fun later => (later, none)))
  | .removeName name => some ((remove_name variant name).map (fun later => (later, none)))
  | .atName name => some ((at_name variant name).map (fun result => (result.1, some result.2)))
  | .insertIndex index value => some ((insert_index variant index value).map (fun later => (later, none)))
  | .append value => some ((append variant value).map (fun later => (later, none)))
  | .removeIndex index => (remove_index variant index).map (fun result => result.map (fun later => (later, none)))
  | .atIndex index => some ((at_index variant index).map (fun result => (result.1, some result.2)))

/-! ## Finite maps and lists -/

/-- The tree that a variant's packet shows. -/
def shown (variant : Variant) : Option Tree :=
  match mk_payload variant with
  | .ok payload => treeOf ⟨variant.type, payload⟩
  | .error _ => none

/-- A finite map in the order of its keys, or a list. -/
structure Object where
  kind : Kind
  entries : List (Key × Tree)

namespace Object

def tree (object : Object) : Tree := .node object.kind object.entries

def insert (object : Object) (key : Key) (value : Tree) : Object := { object with entries := put key value object.entries }

def remove (object : Object) (key : Key) : Object := { object with entries := erase key object.entries }

/-- The value of a key, which is an EMPTY from now on if it had none. -/
def lookup (object : Object) (key : Key) : Object × Tree :=
  match find key object.entries with
  | some tree => (object, tree)
  | none => (object.insert key (.leaf VAR_TYPE_EMPTY []), .leaf VAR_TYPE_EMPTY [])

/-- What an edit means; nothing if it raises an exception. -/
def perform (object : Object) : Edit → Option (Object × Option Tree)
  | .insertName name value => (shown value).map (fun tree => (object.insert (.name (c_str name)) tree, none))
  | .removeName name => some (object.remove (.name (c_str name)), none)
  | .atName name =>
    let (later, tree) := object.lookup (.name (c_str name))
    some (later, some tree)
  | .insertIndex index value => (shown value).map (fun tree => (object.insert (.id index) tree, none))
  | .append value => (shown value).map (fun tree => ({ object with entries := object.entries ++ [(.item, tree)] }, none))
  | .removeIndex index =>
    if object.kind = .list then
      if index.toNat < object.entries.length then some ({ object with entries := object.entries.eraseIdx index.toNat }, none)
      else none
    else some (object.remove (.id index), none)
  | .atIndex index =>
    if object.kind = .list then (object.entries[index.toNat]?).map (fun pair => (object, some pair.2))
    else
      let (later, tree) := object.lookup (.id index)
      some (later, some tree)

end Object

/-! ### What its readers should show -/

namespace Object

def has_name (object : Object) (name : Bytes) : Bool := (find (.name (c_str name)) object.entries).isSome

def has_index (object : Object) (index : UInt32) : Bool :=
  if object.kind = .list then index.toNat < object.entries.length else (find (.id index) object.entries).isSome

def key (object : Object) (index : UInt32) : Option Bytes :=
  match object.entries[index.toNat]? with
  | some (.name text, _) => some text
  | _ => none

def id (object : Object) (index : UInt32) : Option UInt32 :=
  match object.entries[index.toNat]? with
  | some (.id value, _) => some value
  | _ => none

def get_index (object : Object) (index : UInt32) : Option Tree :=
  if object.kind = .list then (object.entries[index.toNat]?).map Prod.snd else find (.id index) object.entries

end Object

/-- A reader's answer, or the exception for a place that is not there. -/
def orOutOfBound {α : Type} : Option α → Except CException α
  | some answer => .ok answer
  | none => .error outOfBound

/-- A child of the tree, or the default. -/
def Gets (result : Except CException Variant) (expected : Option Tree) (default : Variant) : Prop :=
  ∃ child, result = .ok child ∧
    match expected with
    | some tree => shown child = some tree
    | none => child = default

/-- The packet stays below 4 GB. -/
def Small (variant : Variant) : Prop := ∀ payload, mk_payload variant = .ok payload → payload.length < 2 ^ 32

/-- The readers show the object, and so does the packet. -/
structure Agrees (variant : Variant) (object : Object) : Prop where
  count : Small variant → count variant = .ok object.entries.length
  has_name : object.kind = .map → ∀ name, has_name variant name = .ok (object.has_name name)
  has_index : object.kind ≠ .map → ∀ index, has_index variant index = .ok (object.has_index index)
  key : object.kind = .map → ∀ index, key variant index = orOutOfBound (object.key index)
  id : object.kind = .index → ∀ index, id variant index = orOutOfBound (object.id index)
  get_name : object.kind = .map → ∀ name default,
    Gets (get_name variant name default) (find (.name (c_str name)) object.entries) default
  get_index : object.kind ≠ .map → ∀ index default, Gets (get_index variant index default) (object.get_index index) default
  decoded : Small variant → Reencodes (to_packet_variant variant) object.tree

/-- The edits of a MAP, an INDEX and a LIST. -/
def Suits : Kind → Edit → Prop
  | .map, .insertName _ _ | .map, .removeName _ | .map, .atName _ => True
  | .index, .insertIndex _ _ | .index, .removeIndex _ | .index, .atIndex _ => True
  | .list, .append _ | .list, .removeIndex _ | .list, .atIndex _ => True
  | _, _ => False

/-! ## Children and their trees -/

def Shown (child : Variant) (tree : Tree) : Prop := shown child = some tree

theorem Shown.payload {child : Variant} {tree : Tree} (shows : Shown child tree) :
    ∃ payload, mk_payload child = .ok payload ∧ treeOf ⟨child.type, payload⟩ = some tree := by
  unfold Shown shown at shows
  split at shows
  · rename_i payload made
    exact ⟨payload, made, shows⟩
  · cases shows

theorem Shown.assign {child : Variant} {tree : Tree} (shows : Shown child tree) : Shown (assign child) tree := by
  obtain ⟨payload, made, opened⟩ := shows.payload
  cases child with
  | raw access packed =>
    cases access with
    | derived => exact shows
    | readWrite => exact shows
    | readOnly => exact shows
    | writeOnly => exact shows
  | opened access kind bytes entries =>
    cases access with
    | derived =>
      cases made
      exact opened
    | readWrite => exact shows
    | readOnly => exact shows
    | writeOnly => exact shows
  | writing kind buffer => exact shows

theorem shown_empty : Shown empty (.leaf VAR_TYPE_EMPTY []) := by
  unfold Shown
  rfl

variable {entries : List (Key × Variant)} {trees : List (Key × Tree)} {variant : Variant} {object : Object}
  {edit : Edit}

theorem mk_entries_shown (related : List.Forall₂ (Keyed Shown) entries trees) :
    ∃ packs, mk_entries entries = .ok (packs.flatMap write_entry) ∧
      List.Forall₂ (Keyed (fun packed tree => treeOf packed = some tree)) packs trees := by
  induction related with
  | nil => exact ⟨[], rfl, .nil⟩
  | cons head tail ih =>
    rename_i pair entry pairs others
    obtain ⟨key, child⟩ := pair
    obtain ⟨otherKey, tree⟩ := entry
    obtain ⟨rfl, shows⟩ := head
    obtain ⟨packs, written, opened⟩ := ih
    obtain ⟨payload, made, childOpened⟩ := shows.payload
    simp only at made childOpened
    refine ⟨(key, ⟨child.type, payload⟩) :: packs, ?_, .cons ⟨rfl, childOpened⟩ opened⟩
    simp only [mk_entries, made, written, List.flatMap_cons]
    rfl

theorem find_keyed {α β : Type} {holds : α → β → Prop} {left : List (Key × α)} {right : List (Key × β)}
    (related : List.Forall₂ (Keyed holds) left right) (key : Key) :
    (find key left = none ∧ find key right = none) ∨
      ∃ value other, find key left = some value ∧ find key right = some other ∧ holds value other := by
  induction related with
  | nil => exact .inl ⟨rfl, rfl⟩
  | cons head tail ih =>
    rename_i first second firsts seconds
    obtain ⟨firstKey, value⟩ := first
    obtain ⟨secondKey, other⟩ := second
    obtain ⟨rfl, good⟩ := head
    by_cases here : firstKey = key
    · exact .inr ⟨value, other, by simp [find, here], by simp [find, here], good⟩
    · simpa only [find, if_neg here] using ih

theorem isSome_keyed {α β : Type} {holds : α → β → Prop} {left : List (Key × α)} {right : List (Key × β)}
    (related : List.Forall₂ (Keyed holds) left right) (key : Key) : (find key left).isSome = (find key right).isSome := by
  rcases find_keyed related key with ⟨first, second⟩ | ⟨value, other, first, second, -⟩
  · rw [first, second, Option.isSome_none, Option.isSome_none]
  · rw [first, second, Option.isSome_some, Option.isSome_some]

theorem getElem?_keyed {α β : Type} {holds : α → β → Prop} {left : List (Key × α)} {right : List (Key × β)}
    (related : List.Forall₂ (Keyed holds) left right) (index : Nat) :
    (left[index]? = none ∧ right[index]? = none) ∨
      ∃ key value other, left[index]? = some (key, value) ∧ right[index]? = some (key, other) ∧ holds value other := by
  cases here : left[index]? with
  | none =>
    refine .inl ⟨rfl, ?_⟩
    rw [List.getElem?_eq_none_iff] at here ⊢
    rw [← related.length_eq]
    exact here
  | some pair =>
    obtain ⟨other, there, same, good⟩ := forall₂_getElem? related here
    obtain ⟨key, value⟩ := pair
    obtain ⟨otherKey, otherValue⟩ := other
    simp only at same
    subst same
    exact .inr ⟨key, value, otherValue, rfl, there, good⟩

theorem forall₂_erase {α β : Type} {holds : α → β → Prop} {left : List (Key × α)} {right : List (Key × β)}
    (related : List.Forall₂ (Keyed holds) left right) (key : Key) :
    List.Forall₂ (Keyed holds) (erase key left) (erase key right) := by
  induction related with
  | nil => exact .nil
  | cons head tail ih =>
    rename_i first second firsts seconds
    obtain ⟨firstKey, value⟩ := first
    obtain ⟨secondKey, other⟩ := second
    obtain ⟨rfl, good⟩ := head
    by_cases gone : firstKey = key
    · simpa [erase, gone] using ih
    · have kept := List.Forall₂.cons (R := Keyed holds) (a := (firstKey, value)) (b := (firstKey, other)) ⟨rfl, good⟩ ih
      simpa [erase, gone] using kept

/-! ## Refinement -/

/-- The variant is read-write and stands for the object. -/
structure Refines (variant : Variant) (object : Object) : Prop where
  access : variant.access = .readWrite
  type : variant.type = object.kind.type
  arranged : Arranged object.kind object.entries
  bare : ∀ pair ∈ object.entries, pair.2.type = VAR_TYPE_EMPTY → body pair.2 = []
  kept : ∃ entries, container object.kind variant = .ok entries ∧ mk_payload variant = mk_entries entries ∧
    List.Forall₂ (Keyed Shown) entries object.entries

variable {kind : Kind}

theorem refines_opened {payload : Bytes} (related : List.Forall₂ (Keyed Shown) entries trees)
    (arranged : Arranged kind trees) (bare : ∀ pair ∈ trees, pair.2.type = VAR_TYPE_EMPTY → body pair.2 = []) :
    Refines (.opened .readWrite kind payload entries) ⟨kind, trees⟩ :=
  ⟨rfl, rfl, arranged, bare, entries, rfl, by rw [mk_payload], related⟩

theorem refines_unfrozen {packed : Packed} (opened : treeOf packed = some (.node kind trees))
    (bare : ∀ pair ∈ trees, pair.2.type = VAR_TYPE_EMPTY → body pair.2 = []) :
    Refines (.raw .readWrite packed) ⟨kind, trees⟩ := by
  rcases treeOf_cases opened with ⟨-, impossible⟩ | ⟨kind, entries, trees, typed, walked, children, same⟩
  · cases impossible
  · cases same
    have loaded : load kind packed.payload = .ok (collect kind entries) := by simp [load, parse, walked]
    refine ⟨rfl, typed, opened_arranged walked children, bare, ?_⟩
    refine ⟨(collect kind entries).map (fun pair => (pair.1, .raw .readOnly pair.2)), ?_, ?_, ?_⟩
    · rw [container, loaded]
      rfl
    · have known : kindOf packed.type = some kind := by rw [typed, kindOf_type]
      have written (pairs : List (Key × Packed)) :
          mk_entries (pairs.map (fun pair => (pair.1, .raw .readOnly pair.2))) = .ok (pairs.flatMap write_entry) := by
        induction pairs with
        | nil => rfl
        | cons pair rest ih =>
          simp only [List.map_cons, mk_entries, mk_payload, ih, List.flatMap_cons]
          rfl
      rw [written, mk_payload]
      simp only [known, loaded]
      rfl
    · rw [List.forall₂_map_left_iff]
      exact openAll_eq_some.mp children

/-! ### Readers -/

theorem Refines.kindOf_type (refines : Refines variant object) : kindOf variant.type = some object.kind := by
  rw [refines.type, VariantContainer.kindOf_type]

private theorem write_entry_positive (pair : Key × Packed) : 1 ≤ (write_entry pair).length := by
  have header : 0 < (packet_header pair.2.type pair.2.payload.length).length := by
    rw [packet_header_length]
    split_ifs <;> omega
  simp only [write_entry, to_packet, List.length_append]
  omega

private theorem length_le_flatMap (packs : List (Key × Packed)) : packs.length ≤ (packs.flatMap write_entry).length := by
  induction packs with
  | nil => simp
  | cons pair rest ih =>
    have one := write_entry_positive pair
    simp only [List.flatMap_cons, List.length_append, List.length_cons]
    omega

theorem Refines.count (refines : Refines variant object) (small : Small variant) :
    count variant = .ok object.entries.length := by
  obtain ⟨entries, contained, written, related⟩ := refines.kept
  obtain ⟨packs, made, opened⟩ := mk_entries_shown related
  have bounded := small _ (written.trans made)
  have several := length_le_flatMap packs
  have same : entries.length = object.entries.length := related.length_eq
  have packed : packs.length = object.entries.length := opened.length_eq
  simp only [VariantEdit.count, refines.kindOf_type, contained, bind, Except.bind, pure, Except.pure]
  rw [Nat.mod_eq_of_lt (by omega), same]

theorem Refines.decoded (refines : Refines variant object) (small : Small variant) :
    Reencodes (to_packet_variant variant) object.tree := by
  obtain ⟨entries, contained, written, related⟩ := refines.kept
  obtain ⟨packs, made, opened⟩ := mk_entries_shown related
  have bounded := small _ (written.trans made)
  have arranged : Arranged object.kind packs := arranged_of_keys (forall₂_keys opened).symm refines.arranged
  have encodable : ∀ pair ∈ packs, Encodable pair.2 := by
    intro pair member
    obtain ⟨entry, entryMember, -, shows⟩ := forall₂_mem_left opened member
    refine ⟨?_, (payload_lt_flatMap member).trans bounded⟩
    intro empty
    have plain : kindOf pair.2.type = none := by rw [empty]; decide
    have leaf := treeOf_leaf plain
    rw [shows] at leaf
    have tree := Option.some.inj leaf
    have nothing := refines.bare entry entryMember (by rw [tree]; exact empty)
    rw [tree] at nothing
    exact nothing
  have shows := treeOf_written arranged encodable
  rw [openAll_eq_some.mpr opened] at shows
  refine reencodes_ok (written.trans made) ?_ ?_
  · refine ⟨?_, bounded⟩
    intro empty
    exact absurd (refines.type.symm.trans empty) (kind_type_ne_empty object.kind)
  · rw [refines.type]
    exact shows

theorem Refines.has_name (refines : Refines variant object) (map : object.kind = .map) (name : Bytes) :
    has_name variant name = .ok (object.has_name name) := by
  obtain ⟨entries, contained, -, related⟩ := refines.kept
  rw [map] at contained
  simp only [VariantEdit.has_name, refines.kindOf_type, map, contained, bind, Except.bind, pure, Except.pure, Object.has_name]
  rw [isSome_keyed related]

theorem Refines.has_index (refines : Refines variant object) (other : object.kind ≠ .map) (index : UInt32) :
    has_index variant index = .ok (object.has_index index) := by
  obtain ⟨entries, contained, -, related⟩ := refines.kept
  cases kind : object.kind with
  | map => exact absurd kind other
  | list =>
    rw [kind] at contained
    simp only [VariantEdit.has_index, refines.kindOf_type, kind, contained, bind, Except.bind, pure, Except.pure, Object.has_index,
      if_true, related.length_eq]
  | index =>
    rw [kind] at contained
    simp only [VariantEdit.has_index, refines.kindOf_type, kind, contained, bind, Except.bind, pure, Except.pure, Object.has_index,
      reduceCtorEq, if_false]
    rw [isSome_keyed related]

theorem Arranged.name {α : Type} {entries : List (Key × α)} (arranged : Arranged .map entries) {pair : Key × α}
    (member : pair ∈ entries) : ∃ text, pair.1 = .name text ∧ c_str text = text := by
  obtain ⟨fits, stored⟩ := arranged.fits pair member
  cases same : pair.1 with
  | name text =>
    rw [same] at stored
    exact ⟨text, rfl, by simpa [Key.stored] using stored⟩
  | id value =>
    rw [same] at fits
    exact fits.elim
  | item =>
    rw [same] at fits
    exact fits.elim

theorem Arranged.id {α : Type} {entries : List (Key × α)} (arranged : Arranged .index entries) {pair : Key × α}
    (member : pair ∈ entries) : ∃ value, pair.1 = .id value := by
  obtain ⟨fits, -⟩ := arranged.fits pair member
  cases same : pair.1 with
  | name text =>
    rw [same] at fits
    exact fits.elim
  | id value => exact ⟨value, rfl⟩
  | item =>
    rw [same] at fits
    exact fits.elim

theorem Refines.key (refines : Refines variant object) (map : object.kind = .map) (index : UInt32) :
    key variant index = orOutOfBound (object.key index) := by
  obtain ⟨entries, contained, -, related⟩ := refines.kept
  have arranged := refines.arranged
  rw [map] at contained arranged
  simp only [VariantEdit.key, refines.kindOf_type, map, contained, bind, Except.bind, pure, Except.pure, Object.key]
  rcases getElem?_keyed related index.toNat with ⟨left, right⟩ | ⟨place, child, tree, left, right, -⟩
  · rw [left, right]
    rfl
  · obtain ⟨text, named, whole⟩ := Arranged.name arranged (List.mem_of_getElem? right)
    simp only at named
    subst named
    simp only [left, right, orOutOfBound, whole]

theorem Refines.id (refines : Refines variant object) (isIndex : object.kind = .index) (index : UInt32) :
    id variant index = orOutOfBound (object.id index) := by
  obtain ⟨entries, contained, -, related⟩ := refines.kept
  have arranged := refines.arranged
  rw [isIndex] at contained arranged
  simp only [VariantEdit.id, refines.kindOf_type, isIndex, contained, bind, Except.bind, pure, Except.pure, Object.id]
  rcases getElem?_keyed related index.toNat with ⟨left, right⟩ | ⟨place, child, tree, left, right, -⟩
  · rw [left, right]
    rfl
  · obtain ⟨value, named⟩ := Arranged.id arranged (List.mem_of_getElem? right)
    simp only at named
    subst named
    simp only [left, right, orOutOfBound]

/-! ### Edits -/

theorem arranged_place {α : Type} {entries : List (Key × α)} {key : Key} {value : α} (arranged : Arranged kind entries)
    (fits : KeyFits kind key) (stored : key.stored = key) : Arranged kind (place kind entries (key, value)) where
  fits pair member := by
    rcases mem_place member with rfl | before
    · exact ⟨fits, stored⟩
    · exact arranged.fits pair before
  sorted ordered := by
    cases kind with
    | list => exact absurd rfl ordered
    | map => exact sorted_put (arranged.sorted ordered)
    | index => exact sorted_put (arranged.sorted ordered)

theorem arranged_erase {α : Type} {entries : List (Key × α)} (arranged : Arranged kind entries) (key : Key) :
    Arranged kind (erase key entries) where
  fits pair member := arranged.fits pair (List.mem_of_mem_filter member)
  sorted ordered := sorted_filter (arranged.sorted ordered)

theorem place_keyed {α : Type} (keyed : kind ≠ .list) (entries : List (Key × α)) (pair : Key × α) :
    place kind entries pair = put pair.1 pair.2 entries := by
  cases kind with
  | list => exact absurd rfl keyed
  | map => rfl
  | index => rfl

/-- A value that can be a child: its packet shows a tree, and it is no EMPTY with a
    payload. -/
def Proper (value : Variant) : Prop := ∃ tree, shown value = some tree ∧ (tree.type = VAR_TYPE_EMPTY → body tree = [])

theorem refines_placed (payload : Bytes) (related : List.Forall₂ (Keyed Shown) entries trees)
    (arranged : Arranged kind trees) (bare : ∀ pair ∈ trees, pair.2.type = VAR_TYPE_EMPTY → body pair.2 = [])
    {key : Key} {child : Variant} {tree : Tree} (fits : KeyFits kind key) (stored : key.stored = key)
    (shows : Shown child tree) (proper : tree.type = VAR_TYPE_EMPTY → body tree = []) :
    Refines (.opened .readWrite kind payload (place kind entries (key, child))) ⟨kind, place kind trees (key, tree)⟩ := by
  refine refines_opened (forall₂_place kind related ⟨rfl, shows⟩) (arranged_place arranged fits stored) ?_
  intro pair member
  rcases mem_place member with rfl | before
  · exact proper
  · exact bare pair before

/-- `At` of a MAP or INDEX: the child is the one of the object, and the two still
    go together. -/
theorem Refines.touch (refines : Refines variant object) (keyed : object.kind ≠ .list) {key : Key}
    (fits : KeyFits object.kind key) (stored : key.stored = key) :
    ∃ later child, touch object.kind variant key = .ok (later, child) ∧ Refines later (object.lookup key).1 ∧
      Shown child (object.lookup key).2 := by
  obtain ⟨entries, contained, -, related⟩ := refines.kept
  rcases find_keyed related key with ⟨left, right⟩ | ⟨child, tree, left, right, shows⟩
  · refine ⟨.opened variant.access object.kind variant.payload (put key empty entries), empty, ?_, ?_, ?_⟩
    · simp only [VariantEdit.touch, contained, bind, Except.bind, left]
      rfl
    · have placed := refines_placed variant.payload related refines.arranged refines.bare fits stored shown_empty
        (fun _ => rfl)
      rw [place_keyed keyed, place_keyed keyed] at placed
      rw [refines.access]
      simp only [Object.lookup, right]
      exact placed
    · simp only [Object.lookup, right]
      exact shown_empty
  · refine ⟨.opened variant.access object.kind variant.payload entries, child, ?_, ?_, ?_⟩
    · simp only [VariantEdit.touch, contained, bind, Except.bind, left]
      rfl
    · rw [refines.access]
      simp only [Object.lookup, right]
      exact refines_opened related refines.arranged refines.bare
    · simp only [Object.lookup, right]
      exact shows

/-- `Insert` and `Append`. -/
theorem Refines.emplace (refines : Refines variant object) (refused : String) {key : Key} {value : Variant}
    {tree : Tree} (fits : KeyFits object.kind key) (stored : key.stored = key) (shows : Shown value tree)
    (proper : tree.type = VAR_TYPE_EMPTY → body tree = []) :
    ∃ later, emplace object.kind refused variant key value = .ok later ∧
      Refines later ⟨object.kind, place object.kind object.entries (key, tree)⟩ := by
  obtain ⟨entries, contained, -, related⟩ := refines.kept
  have writable : ¬ variant.access ≠ .readWrite := fun frozen => frozen refines.access
  obtain ⟨child, childShows, stores⟩ : ∃ child, Shown child tree ∧ store object.kind entries key value = place object.kind entries (key, child) := by
    cases kind : object.kind with
    | list => exact ⟨assign value, shows.assign, rfl⟩
    | map =>
      by_cases present : (find key entries).isSome
      · exact ⟨value, shows, by simp [store, place, present]⟩
      · exact ⟨assign value, shows.assign, by simp [store, place, present]⟩
    | index =>
      by_cases present : (find key entries).isSome
      · exact ⟨value, shows, by simp [store, place, present]⟩
      · exact ⟨assign value, shows.assign, by simp [store, place, present]⟩
  refine ⟨.opened .readWrite object.kind variant.payload (place object.kind entries (key, child)), ?_,
    refines_placed variant.payload related refines.arranged refines.bare fits stored childShows proper⟩
  simp only [VariantValue.emplace, if_neg writable, refines.type, if_true, contained, bind, Except.bind, stores]
  rfl

theorem Refines.erased (refines : Refines variant object) (related : List.Forall₂ (Keyed Shown) entries object.entries)
    (key : Key) :
    Refines (.opened variant.access object.kind variant.payload (erase key entries)) (object.remove key) := by
  rw [refines.access]
  refine refines_opened (forall₂_erase related key) (arranged_erase refines.arranged key) ?_
  intro pair member
  exact refines.bare pair (List.mem_of_mem_filter member)

theorem c_str_stored (name : Bytes) : (Key.name (c_str name)).stored = .name (c_str name) := stored_stored (.name name)

theorem Refines.child_name (refines : Refines variant object) (map : object.kind = .map) {name : Bytes}
    (short : (c_str name).length < 256) :
    ∃ later child, child_name variant name = .ok (later, child) ∧ Refines later (object.lookup (.name (c_str name))).1 ∧
      Shown child (object.lookup (.name (c_str name))).2 := by
  have fits : KeyFits object.kind (.name (c_str name)) := by
    rw [map]
    exact short
  obtain ⟨later, child, touched, follows, shows⟩ := refines.touch (by rw [map]; decide) fits (c_str_stored name)
  refine ⟨later, child, ?_, follows, shows⟩
  rw [map] at touched
  simp only [VariantEdit.child_name, refines.kindOf_type, map]
  exact touched

theorem Refines.child_index (refines : Refines variant object) (isIndex : object.kind = .index) (index : UInt32) :
    ∃ later child, child_index variant index = .ok (later, child) ∧ Refines later (object.lookup (.id index)).1 ∧
      Shown child (object.lookup (.id index)).2 := by
  have fits : KeyFits object.kind (.id index) := by
    rw [isIndex]
    trivial
  obtain ⟨later, child, touched, follows, shows⟩ := refines.touch (by rw [isIndex]; decide) fits rfl
  refine ⟨later, child, ?_, follows, shows⟩
  rw [isIndex] at touched
  simp only [VariantEdit.child_index, refines.kindOf_type, isIndex]
  exact touched

theorem Refines.child_item (refines : Refines variant object) (list : object.kind = .list) (index : UInt32) :
    (object.entries[index.toNat]? = none ∧ VariantEdit.child_index variant index = .error outOfBound) ∨
      ∃ key tree later child, object.entries[index.toNat]? = some (key, tree) ∧ VariantEdit.child_index variant index = .ok (later, child) ∧
        Refines later object ∧ Shown child tree := by
  obtain ⟨entries, contained, -, related⟩ := refines.kept
  rcases getElem?_keyed related index.toNat with ⟨left, right⟩ | ⟨key, child, tree, left, right, shows⟩
  · refine .inl ⟨right, ?_⟩
    rw [list] at contained
    simp only [VariantEdit.child_index, refines.kindOf_type, list, contained, bind, Except.bind, left]
    rfl
  · refine .inr ⟨key, tree, .opened variant.access object.kind variant.payload entries, child, right, ?_, ?_, shows⟩
    · rw [list] at contained
      simp only [VariantEdit.child_index, refines.kindOf_type, list, contained, bind, Except.bind, left]
      rfl
    · rw [refines.access]
      exact refines_opened related refines.arranged refines.bare

theorem Refines.get_name (refines : Refines variant object) (map : object.kind = .map) (name : Bytes)
    (default : Variant) : Gets (get_name variant name default) (find (.name (c_str name)) object.entries) default := by
  have has := refines.has_name map name
  cases found : find (.name (c_str name)) object.entries with
  | none =>
    refine ⟨default, ?_, rfl⟩
    simp [VariantEdit.get_name, has, Object.has_name, found, bind, Except.bind, pure, Except.pure]
  | some tree =>
    have short : (c_str name).length < 256 := by
      have fits := (refines.arranged.fits _ (find_mem found)).1
      rw [map] at fits
      exact fits
    obtain ⟨later, child, got, -, shows⟩ := refines.child_name map short
    simp only [Object.lookup, found] at shows
    refine ⟨child, ?_, shows⟩
    simp [VariantEdit.get_name, has, Object.has_name, found, bind, Except.bind, pure, Except.pure, got]

theorem Refines.get_index (refines : Refines variant object) (other : object.kind ≠ .map) (index : UInt32)
    (default : Variant) : Gets (get_index variant index default) (object.get_index index) default := by
  have has := refines.has_index other index
  cases kind : object.kind with
  | map => exact absurd kind other
  | list =>
    rcases refines.child_item kind index with ⟨beyond, -⟩ | ⟨key, tree, later, child, there, got, -, shows⟩
    · have outside : ¬ index.toNat < object.entries.length := by
        rw [List.getElem?_eq_none_iff] at beyond
        omega
      refine ⟨default, ?_, by simp [Object.get_index, kind, beyond]⟩
      simp [VariantEdit.get_index, has, Object.has_index, kind, outside, bind, Except.bind, pure, Except.pure]
    · have inside : index.toNat < object.entries.length := (List.getElem?_eq_some_iff.mp there).1
      refine ⟨child, ?_, by simpa [Shown, Object.get_index, kind, there] using shows⟩
      simp [VariantEdit.get_index, has, Object.has_index, kind, inside, bind, Except.bind, pure, Except.pure, got]
  | index =>
    obtain ⟨later, child, got, -, shows⟩ := refines.child_index kind index
    cases found : find (.id index) object.entries with
    | none =>
      refine ⟨default, ?_, by simp [Object.get_index, kind, found]⟩
      simp [VariantEdit.get_index, has, Object.has_index, kind, found, bind, Except.bind, pure, Except.pure]
    | some tree =>
      simp only [Object.lookup, found] at shows
      refine ⟨child, ?_, by simpa [Shown, Object.get_index, kind, found] using shows⟩
      simp [VariantEdit.get_index, has, Object.has_index, kind, found, bind, Except.bind, pure, Except.pure, got]

theorem Refines.agrees (refines : Refines variant object) : Agrees variant object where
  count := refines.count
  has_name := refines.has_name
  has_index := refines.has_index
  key := refines.key
  id := refines.id
  get_name := refines.get_name
  get_index := refines.get_index
  decoded := refines.decoded

/-! ## Runs of edits -/

/-- The result of an edit is the one of the object. A place that a list does not
    have is an exception, which leaves the variant as it was; there is no answer at all
    where the code's behaviour is undefined. -/
def Answers (variant : Variant) (object : Object) (edit : Edit) : Prop :=
  match perform variant edit, object.perform edit with
  | some (.ok (later, child)), some (after, tree) => Refines later after ∧ Option.Rel Shown child tree
  | some (.error raised), none => raised = outOfBound
  | _, _ => False

def Object.after (object : Object) (edit : Edit) : Object :=
  match object.perform edit with
  | some (later, _) => later
  | none => object

/-- The variant and the object take the same edit. -/
def step (state : Variant × Object) (edit : Edit) : Option (Variant × Object) :=
  match perform state.1 edit with
  | some (.ok (later, _)) => some (later, state.2.after edit)
  | some (.error _) => some (state.1, state.2.after edit)
  | none => none

/-- An empty container, or a packet of a container that was unfrozen. -/
inductive Start : Variant × Object → Prop where
  | empty (kind : Kind) : Start (init kind, ⟨kind, []⟩)
  | unfrozen {buffer after : Cursor} {packed : Packed} {kind : Kind} {trees : List (Key × Tree)} {variant : Variant}
      (accepted : from_packet_variant .readOnly buffer = .ok (.raw .readOnly packed, after))
      (opened : treeOf packed = some (.node kind trees))
      (bare : ∀ pair ∈ trees, pair.2.type = VAR_TYPE_EMPTY → body pair.2 = [])
      (unfrozen : unfreeze (.raw .readOnly packed) = .ok variant) : Start (variant, ⟨kind, trees⟩)

/-- An edit of the container's kind that does not remove an item of a list, makes
    no name longer than its length byte can tell, and puts in only what can be read
    again. -/
def Allowed (state : Variant × Object) (edit : Edit) : Prop :=
  Suits state.2.kind edit ∧
    match edit with
    | .insertName name value => (c_str name).length < 256 ∧ Proper value
    | .atName name => (c_str name).length < 256
    | .insertIndex _ value | .append value => Proper value
    | .removeIndex index => state.2.kind = .list → state.2.entries.length ≤ index.toNat
    | .removeName _ | .atIndex _ => True

theorem Start.refines {state : Variant × Object} (starts : Start state) : Refines state.1 state.2 := by
  cases starts with
  | empty kind =>
    refine refines_opened .nil ⟨?_, ?_⟩ ?_
    · simp
    · exact fun _ => List.Pairwise.nil
    · simp
  | unfrozen accepted opened bare unfrozen =>
    cases unfrozen
    exact refines_unfrozen opened bare

/-! ### One edit -/

theorem answers_ok {later : Variant} {after : Object} {child : Option Variant} {tree : Option Tree}
    (performed : perform variant edit = some (.ok (later, child))) (expected : object.perform edit = some (after, tree))
    (follows : Refines later after) (same : Option.Rel Shown child tree) : Answers variant object edit := by
  unfold Answers
  rw [performed, expected]
  exact ⟨follows, same⟩

theorem answers_raised (performed : perform variant edit = some (.error outOfBound))
    (expected : object.perform edit = none) : Answers variant object edit := by
  unfold Answers
  rw [performed, expected]

theorem Refines.remove_name (refines : Refines variant object) (map : object.kind = .map) (name : Bytes) :
    ∃ later, remove_name variant name = .ok later ∧ Refines later (object.remove (.name (c_str name))) := by
  obtain ⟨entries, contained, -, related⟩ := refines.kept
  refine ⟨_, ?_, refines.erased related (.name (c_str name))⟩
  rw [map] at contained
  simp only [VariantEdit.remove_name, refines.kindOf_type, map, contained, bind, Except.bind]
  rfl

theorem Refines.remove_index (refines : Refines variant object) (isIndex : object.kind = .index) (index : UInt32) :
    ∃ later, remove_index variant index = some (.ok later) ∧ Refines later (object.remove (.id index)) := by
  obtain ⟨entries, contained, -, related⟩ := refines.kept
  refine ⟨_, ?_, refines.erased related (.id index)⟩
  rw [isIndex] at contained
  simp only [VariantEdit.remove_index, refines.kindOf_type, isIndex, contained, bind, Except.bind]
  rfl

theorem Refines.remove_beyond (refines : Refines variant object) (list : object.kind = .list) {index : UInt32}
    (beyond : object.entries.length ≤ index.toNat) :
    VariantEdit.remove_index variant index = some (.error outOfBound) := by
  obtain ⟨entries, contained, -, related⟩ := refines.kept
  have outside : entries.length ≤ index.toNat := by
    rw [related.length_eq]
    exact beyond
  rw [list] at contained
  simp only [VariantEdit.remove_index, refines.kindOf_type, list, contained, if_pos outside]

theorem Refines.at_name (refines : Refines variant object) (map : object.kind = .map) (name : Bytes) :
    at_name variant name = VariantEdit.child_name variant name := by
  have writable : ¬ variant.access ≠ .readWrite := fun frozen => frozen refines.access
  have typed : variant.type = VAR_TYPE_MAP := by
    rw [refines.type, map]
    rfl
  simp only [VariantEdit.at_name, if_neg writable, if_pos typed]

theorem Refines.at_index (refines : Refines variant object) (other : object.kind ≠ .map) (index : UInt32) :
    at_index variant index = VariantEdit.child_index variant index := by
  have writable : ¬ variant.access ≠ .readWrite := fun frozen => frozen refines.access
  have typed : variant.type = VAR_TYPE_INDEX ∨ variant.type = VAR_TYPE_LIST := by
    rw [refines.type]
    cases kind : object.kind with
    | map => exact absurd kind other
    | list => exact .inr rfl
    | index => exact .inl rfl
  simp only [VariantEdit.at_index, if_neg writable, if_pos typed]

theorem Refines.answers_insert (refines : Refines variant object) (refused : String) (key : Key) {value : Variant}
    (fits : KeyFits object.kind key) (stored : key.stored = key) (proper : Proper value)
    (performs : perform variant edit = some ((VariantValue.emplace object.kind refused variant key value).map (fun later => (later, none))))
    (expects : object.perform edit = (shown value).map (fun tree => (⟨object.kind, place object.kind object.entries (key, tree)⟩, none)))
    : Answers variant object edit := by
  obtain ⟨tree, shows, bare⟩ := proper
  obtain ⟨later, placed, follows⟩ := refines.emplace refused fits stored shows bare
  rw [placed] at performs
  rw [shows] at expects
  exact answers_ok performs expects follows .none

theorem Refines.answers_map (refines : Refines variant object) (map : object.kind = .map)
    (allowed : Allowed (variant, object) edit) : Answers variant object edit := by
  obtain ⟨suits, allowed⟩ := allowed
  simp only [map] at suits
  cases edit with
  | insertName name value =>
    refine refines.answers_insert "variant access violation; Map Insert" (.name (c_str name)) ?_ (c_str_stored name) allowed.2 ?_ ?_
    · rw [map]
      exact allowed.1
    · rw [map]
      rfl
    · have keyed : object.kind ≠ .list := by
        rw [map]
        decide
      simp only [place_keyed keyed]
      rfl
  | removeName name =>
    obtain ⟨later, removed, follows⟩ := refines.remove_name map name
    refine answers_ok ?_ rfl follows .none
    simp only [perform, removed]
    rfl
  | atName name =>
    obtain ⟨later, child, got, follows, shows⟩ := refines.child_name map allowed
    refine answers_ok ?_ rfl follows (.some shows)
    simp only [perform, refines.at_name map, got]
    rfl
  | insertIndex index value => exact suits.elim
  | append value => exact suits.elim
  | removeIndex index => exact suits.elim
  | atIndex index => exact suits.elim

theorem Refines.answers_index (refines : Refines variant object) (isIndex : object.kind = .index)
    (allowed : Allowed (variant, object) edit) : Answers variant object edit := by
  obtain ⟨suits, allowed⟩ := allowed
  simp only [isIndex] at suits
  have other : object.kind ≠ .map := by
    rw [isIndex]
    decide
  cases edit with
  | insertIndex index value =>
    refine refines.answers_insert "variant access violation; Index Insert" (.id index) ?_ rfl allowed ?_ ?_
    · rw [isIndex]
      trivial
    · rw [isIndex]
      rfl
    · have keyed : object.kind ≠ .list := by
        rw [isIndex]
        decide
      simp only [place_keyed keyed]
      rfl
  | removeIndex index =>
    obtain ⟨later, removed, follows⟩ := refines.remove_index isIndex index
    refine answers_ok ?_ ?_ follows .none
    · simp only [perform, removed]
      rfl
    · simp only [Object.perform, isIndex, reduceCtorEq, if_false]
  | atIndex index =>
    obtain ⟨later, child, got, follows, shows⟩ := refines.child_index isIndex index
    refine answers_ok ?_ ?_ follows (.some shows)
    · simp only [perform, refines.at_index other, got]
      rfl
    · simp only [Object.perform, isIndex, reduceCtorEq, if_false]
  | insertName name value => exact suits.elim
  | removeName name => exact suits.elim
  | atName name => exact suits.elim
  | append value => exact suits.elim

theorem Refines.answers_list (refines : Refines variant object) (list : object.kind = .list)
    (allowed : Allowed (variant, object) edit) : Answers variant object edit := by
  obtain ⟨suits, allowed⟩ := allowed
  simp only [list] at suits
  have other : object.kind ≠ .map := by
    rw [list]
    decide
  cases edit with
  | append value =>
    refine refines.answers_insert "variant access violation; List Append" .item ?_ rfl allowed ?_ ?_
    · rw [list]
      trivial
    · rw [list]
      rfl
    · simp only [Object.perform, list]
      rfl
  | removeIndex index =>
    have beyond := allowed list
    refine answers_raised ?_ ?_
    · simp only [perform, refines.remove_beyond list beyond]
      rfl
    · have outside : ¬ index.toNat < object.entries.length := Nat.not_lt.mpr beyond
      simp only [Object.perform, list, if_true, if_neg outside]
  | atIndex index =>
    rcases refines.child_item list index with ⟨beyond, raised⟩ | ⟨key, tree, later, child, there, got, follows, shows⟩
    · refine answers_raised ?_ ?_
      · simp only [perform, refines.at_index other, raised]
        rfl
      · simp only [Object.perform, list, if_true, beyond]
        rfl
    · refine answers_ok ?_ ?_ follows (.some shows)
      · simp only [perform, refines.at_index other, got]
        rfl
      · simp only [Object.perform, list, if_true, there]
        rfl
  | insertName name value => exact suits.elim
  | removeName name => exact suits.elim
  | atName name => exact suits.elim
  | insertIndex index value => exact suits.elim

theorem Refines.answers (refines : Refines variant object) (allowed : Allowed (variant, object) edit) :
    Answers variant object edit := by
  cases kind : object.kind with
  | map => exact refines.answers_map kind allowed
  | index => exact refines.answers_index kind allowed
  | list => exact refines.answers_list kind allowed

theorem refines_step {state later : Variant × Object} (refines : Refines state.1 state.2) (allowed : Allowed state edit)
    (stepped : step state edit = some later) : Refines later.1 later.2 := by
  have answers := refines.answers allowed
  unfold step at stepped
  unfold Answers at answers
  unfold Object.after at stepped
  split at answers
  · rename_i result child after tree performed expected
    rw [performed, expected] at stepped
    cases stepped
    exact answers.1
  · rename_i raised performed expected
    rw [performed, expected] at stepped
    cases stepped
    exact refines
  · exact answers.elim

/-! ### Whole runs -/

def some_edits : List Edit :=
  [.insertName [98] (.raw .readWrite ⟨VAR_TYPE_UINT, [7]⟩), .insertName [97] (.raw .readWrite ⟨VAR_TYPE_UINT, [8]⟩),
    .removeName [98], .atName [99]]

end TaskExplorer.VariantEdit
