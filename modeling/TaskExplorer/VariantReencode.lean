import TaskExplorer.VariantTree

/-!
# Encoding again what was decoded

`OnReadyRead` copies a received payload by encoding and decoding it again, and
`Unfreeze` makes a read-write variant of one that was decoded. Both rely on the
bytes written showing the tree that was read.
-/

namespace TaskExplorer.VariantReencode
open ListEdits Codec OrderedMap VariantFormat VariantContainer
open VariantValue VariantTree

/-- The bytes are accepted to their end, and show the tree. -/
def Shows (bytes : Bytes) (tree : Tree) : Prop :=
  ∃ packed, from_packet ⟨bytes, 0⟩ = .ok (packed, ⟨[], bytes.length⟩) ∧ treeOf packed = some tree

def Reencodes (encoded : Except CException Bytes) (tree : Tree) : Prop := ∃ bytes, encoded = .ok bytes ∧ Shows bytes tree

/-- The ways a decoded variant is written again: as it is, after `Unfreeze` and a
    full parse, and after a full parse and `Unfreeze`. -/
structure Faithful (variant : Variant) (tree : Tree) : Prop where
  direct : Reencodes (to_packet_variant variant) tree
  unfrozen : Reencodes (unfreeze variant >>= full_parse >>= to_packet_variant) tree
  copied : Reencodes (full_parse variant >>= unfreeze >>= to_packet_variant) tree

/-! ## What the bytes show -/

variable {packed : Packed} {tree : Tree} {trees : List (Key × Tree)}

theorem shows_to_packet (encodable : Encodable packed) (shown : treeOf packed = some tree) :
    Shows (to_packet packed) tree := by
  refine ⟨packed, ?_, shown⟩
  have read := from_packet_to_packet packed encodable [] 0
  simpa using read

theorem encodable_of_shows (fits : packed.payload.length < 2 ^ 32) (shows : Shows (to_packet packed) tree) :
    Encodable packed := by
  refine ⟨?_, fits⟩
  intro empty
  obtain ⟨read, accepted, -⟩ := shows
  have header : to_packet packed = to_packet ⟨VAR_TYPE_EMPTY, []⟩ ++ packed.payload := by
    simp [to_packet, packet_header, empty]
  have again := from_packet_to_packet ⟨VAR_TYPE_EMPTY, []⟩ ⟨fun _ => rfl, by simp⟩ packed.payload 0
  rw [header, again] at accepted
  simp only [Except.ok.injEq, Prod.mk.injEq, Cursor.mk.injEq] at accepted
  exact accepted.2.1

theorem treeOf_of_shows (fits : packed.payload.length < 2 ^ 32) (shows : Shows (to_packet packed) tree) :
    treeOf packed = some tree := by
  have encodable := encodable_of_shows fits shows
  obtain ⟨read, accepted, shown⟩ := shows
  have again := from_packet_to_packet packed encodable [] 0
  rw [List.append_nil, accepted] at again
  simp only [Except.ok.injEq, Prod.mk.injEq] at again
  exact again.1 ▸ shown

/-! ## A full parse -/

/-- What a parsed variant writes, and what its copy writes. -/
structure Parsed (mode : EAccess) (packed : Packed) (tree : Tree) (variant : Variant) : Prop where
  type : variant.type = packed.type
  access : variant.access = mode
  kept : mode ≠ .readWrite → mk_payload variant = .ok packed.payload
  copied : ∃ copy, clone variant = .ok copy ∧ copy.type = tree.type ∧ copy.access = .readWrite ∧
    mk_payload copy = .ok (body tree)

private theorem mapM_ok {α β : Type} {f : α → Except CException β} {holds : α → β → Prop} {values : List α}
    (each : ∀ value ∈ values, ∃ result, f value = .ok result ∧ holds value result) :
    ∃ results, values.mapM f = .ok results ∧ List.Forall₂ holds values results := by
  induction values with
  | nil => exact ⟨[], rfl, .nil⟩
  | cons value rest ih =>
    obtain ⟨result, computed, good⟩ := each value (by simp)
    obtain ⟨results, later, related⟩ := ih (fun other member => each other (List.mem_cons_of_mem _ member))
    refine ⟨result :: results, ?_, .cons good related⟩
    rw [List.mapM_cons, computed, later]
    rfl

/-- The children of a container that is opened: whatever tree they show, they
    are parsed to it. -/
private def ChildParsed (pair : Key × Packed) (child : Key × Variant) : Prop :=
  pair.1 = child.1 ∧ ∀ tree, treeOf pair.2 = some tree → Parsed .readOnly pair.2 tree child.2

private theorem mk_entries_children {pairs : List (Key × Packed)} {children : List (Key × Variant)}
    (opened : openAll treeOf pairs = some trees) (parsed : List.Forall₂ ChildParsed pairs children) :
    mk_entries children = .ok (pairs.flatMap write_entry) := by
  have related := openAll_eq_some.mp opened
  clear opened
  induction parsed generalizing trees with
  | nil => rfl
  | cons head tail ih =>
    rename_i pair child pairs children
    cases related with
    | cons shown rest =>
      obtain ⟨key, packed⟩ := pair
      obtain ⟨otherKey, variant⟩ := child
      obtain ⟨rfl, each⟩ := head
      have first := each _ shown.2
      have payload := first.kept (by decide)
      simp only at payload
      simp only [mk_entries, payload, ih rest, first.type, List.flatMap_cons]
      rfl

private theorem clone_entries_children {pairs : List (Key × Packed)} {children : List (Key × Variant)}
    (opened : openAll treeOf pairs = some trees) (parsed : List.Forall₂ ChildParsed pairs children) :
    ∃ copies, clone_entries children = .ok copies ∧ trees.map Prod.fst = copies.map Prod.fst ∧
      (∀ copy ∈ copies, copy.2.access = .readWrite) ∧ mk_entries copies = .ok (bodies trees) := by
  have related := openAll_eq_some.mp opened
  clear opened
  induction parsed generalizing trees with
  | nil =>
    cases related
    exact ⟨[], rfl, rfl, by simp, rfl⟩
  | cons head tail ih =>
    rename_i pair child pairs children
    cases related with
    | cons shown rest =>
      rename_i tree others
      obtain ⟨otherKey, variant⟩ := child
      obtain ⟨same, each⟩ := head
      obtain ⟨key, tree⟩ := tree
      obtain ⟨copies, cloned, keys, writable, payload⟩ := ih rest
      obtain ⟨copy, first, typed, access, written⟩ := (each _ shown.2).copied
      have named : key = otherKey := shown.1.symm.trans same
      subst named
      refine ⟨(key, copy) :: copies, ?_, ?_, ?_, ?_⟩
      · simp only at first
        simp only [clone_entries, first, cloned]
        rfl
      · simp [keys]
      · intro other member
        rcases List.mem_cons.mp member with rfl | later
        · exact access
        · exact writable other later
      · simp only [mk_entries, written, payload, typed, bodies]
        rfl

private theorem assign_readWrite {variant : Variant} (writable : variant.access = .readWrite) : assign variant = variant := by
  cases variant with
  | raw access packed =>
    cases writable
    rfl
  | opened access kind payload entries =>
    cases writable
    rfl
  | writing kind buffer => rfl

private theorem foldl_store {kind : Kind} {entries : List (Key × Variant)} (arranged : Arranged kind entries)
    (writable : ∀ pair ∈ entries, pair.2.access = .readWrite) :
    entries.foldl (fun kept pair => store kind kept pair.1.stored pair.2) [] = entries := by
  refine foldl_of_arranged ?_ arranged
  rintro before ⟨key, variant⟩ member whole
  obtain ⟨stored, absent, placed⟩ := arranged_last whole
  have copied : assign variant = variant := assign_readWrite (writable (key, variant) member)
  simp only [stored]
  cases kind with
  | list => simp [store, copied]
  | map => simp [store, absent, copied, placed]
  | index => simp [store, absent, copied, placed]

private theorem open_container {fuel : Nat} (access : EAccess) {kind : Kind} {entries : List (Key × Packed)}
    (typed : packed.type = kind.type) (walked : raw_entries kind packed.payload = (entries, .pending []))
    (opened : openAll treeOf (collect kind entries) = some trees)
    (below : ∀ child tree, treeOf child = some tree → child.payload.length < packed.payload.length → ∃ variant, open_payload fuel .readOnly child = .ok variant ∧ Parsed .readOnly child tree variant)
    :
    ∃ children, open_payload (fuel + 1) access packed = .ok (.opened access kind packed.payload children) ∧
      List.Forall₂ ChildParsed (collect kind entries) children := by
  have known : kindOf packed.type = some kind := by rw [typed, kindOf_type]
  have loaded : load kind packed.payload = .ok (collect kind entries) := by simp [load, parse, walked]
  have each : ∀ pair ∈ collect kind entries, ∃ child, open_entry (open_payload fuel .readOnly) pair = .ok child ∧
      ChildParsed pair child := by
    intro pair member
    obtain ⟨key, found, -⟩ := mem_collect member
    have shorter : pair.2.payload.length < packed.payload.length :=
      raw_entries_shorter kind packed.payload (key, pair.2) (by rw [walked]; exact found)
    obtain ⟨other, -, -, childShown⟩ := forall₂_mem_left (openAll_eq_some.mp opened) member
    obtain ⟨child, computed, -⟩ := below pair.2 other.2 childShown shorter
    refine ⟨(pair.1, child), by rw [open_entry, computed]; rfl, rfl, ?_⟩
    intro tree shown
    obtain ⟨again, recomputed, parsed⟩ := below pair.2 tree shown shorter
    rw [computed] at recomputed
    cases recomputed
    exact parsed
  obtain ⟨children, computed, parsed⟩ := mapM_ok each
  refine ⟨children, ?_, parsed⟩
  simp only [open_payload, known, loaded, bind, Except.bind, computed]
  rfl

private theorem mk_payload_frozen {access : EAccess} (frozen : access ≠ .readWrite) (kind : Kind) (packed : Packed)
    (entries : List (Key × Variant)) : mk_payload (.raw access packed) = .ok packed.payload ∧
      mk_payload (.opened access kind packed.payload entries) = .ok packed.payload := by
  cases access with
  | readWrite => exact absurd rfl frozen
  | readOnly => exact ⟨rfl, rfl⟩
  | writeOnly => exact ⟨rfl, rfl⟩
  | derived => exact ⟨rfl, rfl⟩

theorem open_payload_parsed (fuel : Nat) (access : EAccess) (shown : treeOf packed = some tree)
    (enough : packed.payload.length < fuel) :
    ∃ variant, open_payload fuel access packed = .ok variant ∧ Parsed access packed tree variant := by
  induction fuel generalizing access packed tree with
  | zero => omega
  | succ fuel ih =>
    rcases treeOf_cases shown with ⟨plain, rfl⟩ | ⟨kind, entries, trees, typed, walked, opened, rfl⟩
    · refine ⟨.raw access packed, by simp [open_payload, plain], rfl, rfl, ?_, ?_⟩
      · intro frozen
        exact (mk_payload_frozen frozen .map packed []).1
      · exact ⟨.raw .readWrite packed, rfl, rfl, rfl, by simp [mk_payload, plain, body]⟩
    · obtain ⟨children, computed, parsed⟩ := open_container access typed walked opened
        (fun child tree shown shorter => ih .readOnly shown (by omega))
      obtain ⟨copies, cloned, keys, writable, written⟩ := clone_entries_children opened parsed
      have refilled := foldl_store (arranged_of_keys keys (opened_arranged walked opened)) writable
      refine ⟨_, computed, typed.symm, rfl, ?_, ?_⟩
      · intro frozen
        exact (mk_payload_frozen frozen kind packed children).2
      · refine ⟨.opened .readWrite kind [] copies, ?_, rfl, rfl, written⟩
        simp only [clone, cloned, bind, Except.bind, refilled]
        rfl

/-! ## Writing it again -/

theorem reencodes_ok {variant : Variant} {payload : Bytes} (made : mk_payload variant = .ok payload)
    (encodable : Encodable ⟨variant.type, payload⟩) (shown : treeOf ⟨variant.type, payload⟩ = some tree) :
    Reencodes (to_packet_variant variant) tree := by
  refine ⟨to_packet ⟨variant.type, payload⟩, ?_, shows_to_packet encodable shown⟩
  rw [to_packet_variant, made]
  rfl

theorem empty_of_bare (shown : treeOf packed = some tree) (bare : Bare tree) :
    packed.type = VAR_TYPE_EMPTY → packed.payload = [] := by
  intro empty
  have plain : kindOf packed.type = none := by rw [empty]; decide
  rw [treeOf_leaf plain] at shown
  cases shown
  cases bare with
  | leaf none => exact none empty

private theorem kept_entries_fit {kind : Kind} {payload rest : Bytes} {entries : List (Key × Packed)}
    (walked : raw_entries kind payload = (entries, .pending rest))
    (opened : openAll treeOf (collect kind entries) = some trees) (bares : ∀ pair ∈ trees, Bare pair.2) :
    (∀ pair ∈ collect kind entries, Encodable pair.2) ∧
      ((collect kind entries).flatMap write_entry).length ≤ payload.length := by
  constructor
  · intro pair member
    obtain ⟨key, found, -⟩ := mem_collect member
    have fits := (raw_entries_fit kind payload (key, pair.2) (by rw [walked]; exact found)).2
    obtain ⟨entry, entryMember, -, shown⟩ := forall₂_mem_left (openAll_eq_some.mp opened) member
    exact ⟨empty_of_bare shown (bares entry entryMember), fits⟩
  · have kept := collect_cost kind weight entries
    have paid := raw_entries_cost kind payload
    have plain : ((collect kind entries).flatMap write_entry).length ≤ ((collect kind entries).map weight).sum := by
      rw [List.length_flatMap]
      exact List.sum_le_sum (fun pair _ => Nat.le_add_right _ _)
    simp only [walked] at paid
    omega

private theorem unfrozen_reencodes (shown : treeOf packed = some tree) (bare : Bare tree)
    (fits : packed.payload.length < 2 ^ 32) :
    Reencodes (full_parse (.raw .readWrite packed) >>= to_packet_variant) tree := by
  rcases treeOf_cases shown with ⟨plain, rfl⟩ | ⟨kind, entries, trees, typed, walked, opened, rfl⟩
  · have parsed : full_parse (.raw .readWrite packed) = .ok (.raw .readWrite packed) := by
      simp [full_parse, open_payload, plain]
    have made : mk_payload (.raw .readWrite packed) = .ok packed.payload := by simp [mk_payload, plain]
    rw [parsed]
    exact reencodes_ok made ⟨empty_of_bare shown bare, fits⟩ shown
  · obtain ⟨children, computed, parsed⟩ := open_container .readWrite typed walked opened
      (fun child tree shown shorter => open_payload_parsed packed.payload.length .readOnly shown shorter)
    have made : mk_payload (.opened .readWrite kind packed.payload children) = .ok ((collect kind entries).flatMap write_entry) :=
      mk_entries_children opened parsed
    cases bare with
    | node bares =>
      obtain ⟨encodable, shorter⟩ := kept_entries_fit walked opened bares
      have arranged : Arranged kind (collect kind entries) :=
        collect_arranged entries (fun pair member => (raw_entries_fit kind packed.payload pair (by rw [walked]; exact member)).1)
      have written := treeOf_written arranged encodable
      rw [opened] at written
      rw [full_parse, computed]
      exact reencodes_ok made ⟨fun empty => absurd empty (kind_type_ne_empty kind), by simp only; omega⟩ written

/-- Encoding again what was decoded gives the tree that was read exactly when no
    EMPTY of it came with a payload. -/
theorem reencode_faithful_iff {bytes : Bytes} {position : Nat} {variant : Variant} {after : Cursor} {tree : Tree}
    (accepted : from_packet_variant .readOnly ⟨bytes, position⟩ = .ok (variant, after))
    (parses : treeOf ⟨variant.type, variant.payload⟩ = some tree) : Faithful variant tree ↔ Bare tree := by
  obtain ⟨packed, rfl, fits⟩ : ∃ packed, variant = .raw .readOnly packed ∧ packed.payload.length < 2 ^ 32 := by
    unfold from_packet_variant at accepted
    cases read : from_packet ⟨bytes, position⟩ with
    | error raised => simp [read, bind, Except.bind] at accepted
    | ok result =>
      simp only [read, bind, Except.bind, pure, Except.pure, Except.ok.injEq, Prod.mk.injEq] at accepted
      obtain ⟨header, valid, -⟩ := from_packet_ok_iff.mp read
      exact ⟨result.1, accepted.1.symm, header_size_lt valid⟩
  have parses : treeOf packed = some tree := parses
  obtain ⟨shaped, typed, shorter⟩ := treeOf_shape parses
  obtain ⟨opened, computed, parsed⟩ := open_payload_parsed (packed.payload.length + 1) .readOnly parses (by omega)
  obtain ⟨copy, cloned, copyTyped, writable, written⟩ := parsed.copied
  have copied : (full_parse (.raw .readOnly packed) >>= unfreeze >>= to_packet_variant) = .ok (to_packet (pack tree)) := by
    have frozen : opened.access ≠ .readWrite := by rw [parsed.access]; decide
    simp only [full_parse, computed, bind, Except.bind, unfreeze, if_neg frozen, cloned, to_packet_variant, written, copyTyped]
    rfl
  constructor
  · intro faithful
    obtain ⟨found, same, shows⟩ := faithful.copied
    rw [copied] at same
    cases same
    have short : (pack tree).payload.length < 2 ^ 32 := Nat.lt_of_le_of_lt shorter fits
    exact bare_of_treeOf_pack shaped short (encodable_of_shows short shows).bare (treeOf_of_shows short shows)
  · intro bare
    have encodable : Encodable packed := ⟨empty_of_bare parses bare, fits⟩
    refine ⟨?_, ?_, ?_⟩
    · exact reencodes_ok rfl encodable parses
    · exact unfrozen_reencodes parses bare fits
    · refine ⟨_, copied, shows_to_packet ⟨encodable_of_bare bare, ?_⟩ (treeOf_pack shaped bare ?_)⟩
      · exact Nat.lt_of_le_of_lt shorter fits
      · exact Nat.lt_of_le_of_lt shorter fits

theorem reencode_map_faithful :
    Faithful (.raw .readOnly ⟨VAR_TYPE_MAP, [1, 0x61, 0x0C, 5]⟩)
      (.node .map [(.name [0x61], .leaf VAR_TYPE_UINT [5])]) := by
  have accepted : from_packet_variant .readOnly ⟨[0x81, 1, 0x61, 0x0C, 5, 0xFF], 0⟩ =
      .ok (.raw .readOnly ⟨VAR_TYPE_MAP, [1, 0x61, 0x0C, 5]⟩, ⟨[0xFF], 5⟩) := rfl
  refine (reencode_faithful_iff accepted rfl).mpr (.node ?_)
  intro pair member
  cases List.mem_singleton.mp member
  exact .leaf (by decide)

/-- An EMPTY with a length field is accepted with its payload, and written with
    the payload but without the field. -/
theorem reencode_empty_payload_unfaithful :
    ∃ variant after tree, from_packet_variant .readOnly ⟨[0x20, 0x01, 0xAA], 0⟩ = .ok (variant, after) ∧
      treeOf ⟨variant.type, variant.payload⟩ = some tree ∧ to_packet_variant variant = .ok [0x00, 0xAA] ∧
      ¬ Faithful variant tree := by
  refine ⟨.raw .readOnly ⟨VAR_TYPE_EMPTY, [0xAA]⟩, ⟨[], 3⟩, .leaf VAR_TYPE_EMPTY [0xAA], rfl, rfl, rfl, ?_⟩
  intro faithful
  obtain ⟨bytes, written, shows⟩ := faithful.direct
  cases written
  have encodable : Encodable ⟨VAR_TYPE_EMPTY, [0xAA]⟩ := encodable_of_shows (by decide) shows
  exact absurd (encodable.bare rfl) (by decide)

end TaskExplorer.VariantReencode
