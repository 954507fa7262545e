import TaskExplorer.ListEdits
import TaskExplorer.VariantValue

/-!
# The tree a variant stands for

What a reader sees who opens every container: the types, the payloads of the
leaves, and the keys and children of the containers. `treeOf` opens a payload
all the way down, `pack` spells a tree out again.
-/

namespace TaskExplorer.VariantTree
open ListEdits Codec OrderedMap VariantFormat VariantContainer

inductive Tree where
  | leaf (type : VarType) (payload : Bytes)
  | node (kind : Kind) (entries : List (Key × Tree))

namespace Tree

def type : Tree → VarType
  | .leaf type _ => type
  | .node kind _ => kind.type

theorem induct {holds : Tree → Prop} (leaf : ∀ type payload, holds (.leaf type payload))
    (node : ∀ kind entries, (∀ pair ∈ entries, holds pair.2) → holds (.node kind entries)) : ∀ tree, holds tree
  | .leaf type payload => leaf type payload
  | .node kind entries => node kind entries (fun pair _ => induct leaf node pair.2)
termination_by tree => tree
decreasing_by
  rename_i member
  have smaller := List.sizeOf_lt_of_mem member
  cases pair
  simp only [Prod.mk.sizeOf_spec, Tree.node.sizeOf_spec] at smaller ⊢
  omega

end Tree

/-! ## Opening -/

def openAll (read : Packed → Option Tree) : List (Key × Packed) → Option (List (Key × Tree))
  | [] => some []
  | (key, packed) :: rest => do
    let tree ← read packed
    let trees ← openAll read rest
    some ((key, tree) :: trees)

def treeWith : Nat → Packed → Option Tree
  | 0, _ => none
  | fuel + 1, packed =>
    match kindOf packed.type with
    | none => some (.leaf packed.type packed.payload)
    | some kind =>
      match parse kind packed.payload with
      | (entries, none) => (openAll (treeWith fuel) entries).map (.node kind)
      | (_, some _) => none

/-- The tree of a variant, if all of its containers parse. A child's payload is
    shorter than its parent's, so there are no more levels than bytes. -/
def treeOf (packed : Packed) : Option Tree := treeWith (packed.payload.length + 1) packed

variable {trees : List (Key × Tree)} {kind : Kind} {entries : List (Key × Packed)}

variable {read : Packed → Option Tree} {pairs : List (Key × Packed)} {packed : Packed}

theorem openAll_eq_some :
    openAll read pairs = some trees ↔
      List.Forall₂ (fun pair entry => pair.1 = entry.1 ∧ read pair.2 = some entry.2) pairs trees := by
  induction pairs generalizing trees with
  | nil =>
    cases trees <;> simp [openAll]
  | cons pair rest ih =>
    obtain ⟨key, packed⟩ := pair
    constructor
    · intro opened
      cases first : read packed with
      | none => simp [openAll, first] at opened
      | some tree =>
        cases later : openAll read rest with
        | none => simp [openAll, first, later] at opened
        | some others =>
          simp only [openAll, first, later, Option.bind_eq_bind, Option.bind_some, Option.some.injEq] at opened
          subst opened
          exact .cons ⟨rfl, first⟩ (ih.mp later)
    · intro opened
      cases opened with
      | cons head tail =>
        rename_i entry others
        obtain ⟨otherKey, tree⟩ := entry
        obtain ⟨rfl, first⟩ := head
        simp [openAll, first, ih.mpr tail]

theorem openAll_congr {other : Packed → Option Tree} (same : ∀ pair ∈ pairs, read pair.2 = other pair.2) :
    openAll read pairs = openAll other pairs := by
  induction pairs with
  | nil => rfl
  | cons pair rest ih =>
    rw [openAll, openAll, same pair (by simp), ih (fun later member => same later (List.mem_cons_of_mem _ member))]

private theorem parse_shorter {payload : Bytes} {pair : Key × Packed} (member : pair ∈ (parse kind payload).1) :
    pair.2.payload.length < payload.length := by
  have kept : pair ∈ collect kind (raw_entries kind payload).1 := by
    unfold parse at member
    cases ended : (raw_entries kind payload).2 with
    | pending rest =>
      have split : raw_entries kind payload = ((raw_entries kind payload).1, .pending rest) := by rw [← ended]
      rw [split] at member
      exact member
    | failed raised =>
      have split : raw_entries kind payload = ((raw_entries kind payload).1, .failed raised) := by rw [← ended]
      rw [split] at member
      exact member
  obtain ⟨key, found, -⟩ := mem_collect kept
  exact raw_entries_shorter kind payload (key, pair.2) found

private theorem treeWith_fuel (fuel other : Nat) (packed : Packed) (enough : packed.payload.length < fuel)
    (otherEnough : packed.payload.length < other) : treeWith fuel packed = treeWith other packed := by
  induction fuel generalizing other packed with
  | zero => omega
  | succ fuel ih =>
    cases other with
    | zero => omega
    | succ other =>
      simp only [treeWith]
      cases kindOf packed.type with
      | none => rfl
      | some kind =>
        have children : openAll (treeWith fuel) (parse kind packed.payload).1 =
            openAll (treeWith other) (parse kind packed.payload).1 := by
          apply openAll_congr
          intro pair member
          have shorter := parse_shorter member
          exact ih other pair.2 (by omega) (by omega)
        cases opened : parse kind packed.payload with
        | mk entries raised =>
          rw [opened] at children
          simp only at children
          cases raised with
          | none => simp only [opened, children]
          | some raised => simp only [opened]

theorem treeOf_leaf (plain : kindOf packed.type = none) : treeOf packed = some (.leaf packed.type packed.payload) := by
  simp [treeOf, treeWith, plain]

theorem treeOf_container (known : kindOf packed.type = some kind) (opened : parse kind packed.payload = (entries, none))
    : treeOf packed = (openAll treeOf entries).map (.node kind) := by
  have children : openAll (treeWith packed.payload.length) entries = openAll treeOf entries := by
    apply openAll_congr
    intro pair member
    have shorter : pair.2.payload.length < packed.payload.length := parse_shorter (by rw [opened]; exact member)
    exact treeWith_fuel _ _ pair.2 shorter (by omega)
  simp [treeOf, treeWith, known, opened, children]

theorem treeOf_unparsed (known : kindOf packed.type = some kind) {raised : CException}
    (stopped : parse kind packed.payload = (entries, some raised)) : treeOf packed = none := by
  simp [treeOf, treeWith, known, stopped]

theorem treeOf_cases {tree : Tree} (shown : treeOf packed = some tree) :
    (kindOf packed.type = none ∧ tree = .leaf packed.type packed.payload) ∨
    ∃ kind entries trees, packed.type = kind.type ∧ raw_entries kind packed.payload = (entries, .pending []) ∧
      openAll treeOf (collect kind entries) = some trees ∧ tree = .node kind trees := by
  cases known : kindOf packed.type with
  | none =>
    rw [treeOf_leaf known] at shown
    exact Or.inl ⟨rfl, (Option.some.inj shown).symm⟩
  | some kind =>
    right
    cases walked : raw_entries kind packed.payload with
    | mk entries tail =>
      cases tail with
      | failed raised =>
        have stopped : parse kind packed.payload = (collect kind entries, some raised) := by simp [parse, walked]
        rw [treeOf_unparsed known stopped] at shown
        cases shown
      | pending rest =>
        have ended : (raw_entries kind packed.payload).2 = .pending rest := by rw [walked]
        have finished : rest = [] := raw_entries_pending ended
        subst finished
        have parsed : parse kind packed.payload = (collect kind entries, none) := by simp [parse, walked]
        rw [treeOf_container known parsed] at shown
        obtain ⟨trees, opened, rfl⟩ := Option.map_eq_some_iff.mp shown
        exact ⟨kind, entries, trees, type_of_kindOf known, walked, opened, rfl⟩

/-! ## Spelling out -/

mutual
/-- The payload of a tree when every container is written from its children. -/
def body : Tree → Bytes
  | .leaf _ payload => payload
  | .node _ entries => bodies entries

def bodies : List (Key × Tree) → Bytes
  | [] => []
  | (key, tree) :: rest => write_entry (key, ⟨tree.type, body tree⟩) ++ bodies rest
end

def pack (tree : Tree) : Packed := ⟨tree.type, body tree⟩

theorem bodies_eq (entries : List (Key × Tree)) :
    bodies entries = (entries.map (fun pair => (pair.1, pack pair.2))).flatMap write_entry := by
  induction entries with
  | nil => rfl
  | cons pair rest ih =>
    rw [bodies, ih]
    rfl

/-- No EMPTY of the tree carries a payload. -/
inductive Bare : Tree → Prop where
  | leaf {type : VarType} {payload : Bytes} (none : type = VAR_TYPE_EMPTY → payload = []) : Bare (.leaf type payload)
  | node {kind : Kind} {entries : List (Key × Tree)} (each : ∀ pair ∈ entries, Bare pair.2) : Bare (.node kind entries)

/-- The trees that opening can give: containers in order, and no leaf with the
    type of a container. -/
inductive WellShaped : Tree → Prop where
  | leaf {type : VarType} {payload : Bytes} (plain : kindOf type = none) : WellShaped (.leaf type payload)
  | node {kind : Kind} {entries : List (Key × Tree)} (arranged : Arranged kind entries)
      (each : ∀ pair ∈ entries, WellShaped pair.2) : WellShaped (.node kind entries)

theorem treeOf_written (arranged : Arranged kind entries) (encodable : ∀ pair ∈ entries, Encodable pair.2) :
    treeOf ⟨kind.type, entries.flatMap write_entry⟩ = (openAll treeOf entries).map (.node kind) := by
  have walked := raw_entries_written kind entries
    (fun pair member => ⟨(arranged.fits pair member).1, encodable pair member⟩)
  refine treeOf_container (kindOf_type kind) ?_
  simp only [parse, walked, collect_of_arranged arranged]

theorem forall₂_keys
    (opened : List.Forall₂ (fun pair entry => pair.1 = entry.1 ∧ read pair.2 = some entry.2) pairs trees) :
    pairs.map Prod.fst = trees.map Prod.fst := by
  induction opened with
  | nil => rfl
  | cons head tail ih => simp [head.1, ih]

theorem arranged_of_keys {α β : Type} {left : List (Key × α)} {right : List (Key × β)}
    (same : left.map Prod.fst = right.map Prod.fst) (arranged : Arranged kind left) : Arranged kind right where
  fits pair member := by
    have key : pair.1 ∈ left.map Prod.fst := same ▸ List.mem_map.mpr ⟨pair, member, rfl⟩
    obtain ⟨other, otherMember, named⟩ := List.mem_map.mp key
    exact named ▸ arranged.fits other otherMember
  sorted ordered := by
    have keys : (left.map Prod.fst).Pairwise (· < ·) := List.pairwise_map.mpr (arranged.sorted ordered)
    exact List.pairwise_map.mp (same ▸ keys)

theorem bodies_length (entries : List (Key × Tree)) :
    (bodies entries).length = (entries.map (fun pair => (write_entry (pair.1, pack pair.2)).length)).sum := by
  induction entries with
  | nil => rfl
  | cons pair rest ih =>
    rw [bodies, List.length_append, ih]
    rfl

theorem body_length_le_bodies {entries : List (Key × Tree)} {pair : Key × Tree} (member : pair ∈ entries) :
    (body pair.2).length ≤ (bodies entries).length := by
  have single : (write_entry (pair.1, pack pair.2)).length ≤ (bodies entries).length := by
    rw [bodies_length]
    exact List.single_le_sum (fun _ _ => Nat.zero_le _) _ (List.mem_map.mpr ⟨pair, member, rfl⟩)
  simp only [write_entry, to_packet, pack, List.length_append] at single
  omega

theorem opened_arranged {payload rest : Bytes} (walked : raw_entries kind payload = (entries, .pending rest))
    (opened : openAll treeOf (collect kind entries) = some trees) : Arranged kind trees := by
  have fits : ∀ pair ∈ entries, KeyFits kind pair.1 := fun pair member =>
    (raw_entries_fit kind payload pair (by rw [walked]; exact member)).1
  exact arranged_of_keys (forall₂_keys (openAll_eq_some.mp opened)) (collect_arranged entries fits)

private theorem opened_weight {payload rest : Bytes} (walked : raw_entries kind payload = (entries, .pending rest))
    (opened : openAll treeOf (collect kind entries) = some trees)
    (smaller : ∀ pair ∈ collect kind entries, ∀ tree, treeOf pair.2 = some tree → tree.type = pair.2.type ∧ (body tree).length ≤ pair.2.payload.length)
    : (trees.map (fun pair => weight (pair.1, pack pair.2))).sum ≤ payload.length := by
  have each (pair : Key × Packed) (tree : Tree) (child : treeOf pair.2 = some tree)
      (less : tree.type = pair.2.type ∧ (body tree).length ≤ pair.2.payload.length) :
      weight (pair.1, pack tree) ≤ weight pair := by
    obtain ⟨typed, shorter⟩ := less
    have packet : (to_packet ⟨pair.2.type, body tree⟩).length ≤ (to_packet pair.2).length := to_packet_length_mono shorter
    have extra : surplus (pack tree) ≤ surplus pair.2 := by
      by_cases empty : pair.2.type = VAR_TYPE_EMPTY
      · have plain : kindOf pair.2.type = none := by rw [empty]; decide
        rw [treeOf_leaf plain] at child
        cases child
        exact le_refl _
      · simp [surplus, pack, typed, empty]
    simp only [weight, write_entry, List.length_append, pack, typed] at packet extra ⊢
    omega
  have all : (trees.map (fun pair => weight (pair.1, pack pair.2))).sum ≤ ((collect kind entries).map weight).sum := by
    have related := openAll_eq_some.mp opened
    clear opened
    revert smaller related
    generalize collect kind entries = kept
    intro smaller related
    induction related with
    | nil => simp
    | cons head tail ih =>
      rename_i pair entry pairs others
      have first := each pair entry.2 head.2 (smaller pair (by simp) entry.2 head.2)
      have later := ih (fun other member => smaller other (List.mem_cons_of_mem _ member))
      rw [head.1] at first
      simp only [List.map_cons, List.sum_cons]
      omega
  have kept := collect_cost kind weight entries
  have paid := raw_entries_cost kind payload
  simp only [walked] at paid
  omega

theorem treeOf_shape {tree : Tree} (shown : treeOf packed = some tree) :
    WellShaped tree ∧ tree.type = packed.type ∧ (body tree).length ≤ packed.payload.length := by
  induction length : packed.payload.length using Nat.strong_induction_on generalizing packed tree with
  | _ size ih =>
    rcases treeOf_cases shown with ⟨plain, rfl⟩ | ⟨kind, entries, trees, typed, walked, opened, rfl⟩
    · exact ⟨.leaf plain, rfl, by rw [body, length]⟩
    · have children (pair : Key × Packed) (member : pair ∈ collect kind entries) (tree : Tree)
          (child : treeOf pair.2 = some tree) :
          WellShaped tree ∧ tree.type = pair.2.type ∧ (body tree).length ≤ pair.2.payload.length := by
        obtain ⟨key, found, -⟩ := mem_collect member
        have shorter := raw_entries_shorter kind packed.payload (key, pair.2) (by rw [walked]; exact found)
        exact ih _ (length ▸ shorter) child rfl
      have related := openAll_eq_some.mp opened
      refine ⟨.node (opened_arranged walked opened) ?_, typed.symm, ?_⟩
      · intro entry member
        obtain ⟨pair, pairMember, -, child⟩ := forall₂_mem_right related member
        exact (children pair pairMember entry.2 child).1
      · have rewritten := opened_weight walked opened (fun pair member tree child => (children pair member tree child).2)
        have plainer : (bodies trees).length ≤ (trees.map (fun pair => weight (pair.1, pack pair.2))).sum := by
          rw [bodies_length]
          exact List.sum_le_sum (fun pair _ => Nat.le_add_right _ _)
        rw [body]
        omega

theorem encodable_of_bare {tree : Tree} (bare : Bare tree) : (pack tree).type = VAR_TYPE_EMPTY → (pack tree).payload = [] := by
  cases bare with
  | leaf none => exact none
  | node each => exact fun empty => absurd empty (kind_type_ne_empty _)

theorem treeOf_pack {tree : Tree} (shaped : WellShaped tree) (bare : Bare tree) (fits : (body tree).length < 2 ^ 32) :
    treeOf (pack tree) = some tree := by
  induction tree using Tree.induct with
  | leaf type payload =>
    cases shaped with
    | leaf plain => exact treeOf_leaf plain
  | node kind entries ih =>
    cases shaped with
    | node arranged shapes =>
      cases bare with
      | node bares =>
        have childFits (pair : Key × Tree) (member : pair ∈ entries) : (body pair.2).length < 2 ^ 32 :=
          Nat.lt_of_le_of_lt (body_length_le_bodies member) fits
        have packed : Arranged kind (entries.map (fun pair => (pair.1, pack pair.2))) :=
          arranged_of_keys (by simp [Function.comp_def]) arranged
        have encodable : ∀ pair ∈ entries.map (fun pair => (pair.1, pack pair.2)), Encodable pair.2 := by
          intro pair member
          obtain ⟨entry, entryMember, rfl⟩ := List.mem_map.mp member
          exact ⟨encodable_of_bare (bares entry entryMember), childFits entry entryMember⟩
        have opened : openAll treeOf (entries.map (fun pair => (pair.1, pack pair.2))) = some entries := by
          rw [openAll_eq_some, List.forall₂_map_left_iff, List.forall₂_same]
          intro entry member
          exact ⟨rfl, ih entry member (shapes entry member) (bares entry member) (childFits entry member)⟩
        have written := treeOf_written packed encodable
        rw [← bodies_eq, opened] at written
        exact written

theorem bare_of_treeOf_pack {tree : Tree} (shaped : WellShaped tree) (fits : (body tree).length < 2 ^ 32)
    (root : tree.type = VAR_TYPE_EMPTY → body tree = []) (shown : treeOf (pack tree) = some tree) : Bare tree := by
  induction tree using Tree.induct with
  | leaf type payload => exact .leaf root
  | node kind entries ih =>
    cases shaped with
    | node arranged shapes =>
      rcases treeOf_cases shown with ⟨plain, impossible⟩ | ⟨other, pairs, trees, typed, walked, opened, same⟩
      · cases impossible
      · cases same
        have smaller (pair : Key × Packed) (tree : Tree) (child : treeOf pair.2 = some tree) :
            tree.type = pair.2.type ∧ (body tree).length ≤ pair.2.payload.length := (treeOf_shape child).2
        have weights := opened_weight walked opened (fun pair _ tree child => smaller pair tree child)
        have childFits (pair : Key × Tree) (member : pair ∈ entries) : (body pair.2).length < 2 ^ 32 :=
          Nat.lt_of_le_of_lt (body_length_le_bodies member) fits
        -- the entries fill the payload, so none of them can have been written short
        have childBare (pair : Key × Tree) (member : pair ∈ entries) :
            pair.2.type = VAR_TYPE_EMPTY → body pair.2 = [] := by
          intro empty
          by_contra carries
          have short : surplus (pack pair.2) = 1 := by simp [surplus, pack, empty, carries]
          have strict : (bodies entries).length < (entries.map (fun pair => weight (pair.1, pack pair.2))).sum := by
            rw [bodies_length]
            refine List.sum_lt_sum _ _ (fun _ _ => Nat.le_add_right _ _) ⟨pair, member, ?_⟩
            simp only [weight, short]
            omega
          have whole : (pack (.node kind entries)).payload.length = (bodies entries).length := rfl
          omega
        have packed : Arranged kind (entries.map (fun pair => (pair.1, pack pair.2))) :=
          arranged_of_keys (by simp [Function.comp_def]) arranged
        have encodable : ∀ pair ∈ entries.map (fun pair => (pair.1, pack pair.2)), Encodable pair.2 := by
          intro pair member
          obtain ⟨entry, entryMember, rfl⟩ := List.mem_map.mp member
          exact ⟨childBare entry entryMember, childFits entry entryMember⟩
        have written := treeOf_written packed encodable
        rw [← bodies_eq] at written
        have reopened : openAll treeOf (entries.map (fun pair => (pair.1, pack pair.2))) = some entries := by
          have both := written.symm.trans shown
          obtain ⟨others, found, same⟩ := Option.map_eq_some_iff.mp both
          cases same
          exact found
        rw [openAll_eq_some, List.forall₂_map_left_iff, List.forall₂_same] at reopened
        exact .node (fun pair member => ih pair member (shapes pair member) (childFits pair member)
          (childBare pair member) (reopened pair member).2)

end TaskExplorer.VariantTree
