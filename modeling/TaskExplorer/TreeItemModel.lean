import TaskExplorer.Forest
import TaskExplorer.OrderedMap

/-!
# The tree item model

`CTreeItemModel` keeps the rows of a view as nodes below `m_Root`, and `m_Map` from
ids to nodes. `Sync` compares a list with the nodes: a node whose path is still right
stays, `Purge` takes out what does not, and `Fill` hangs the new nodes under
the branches of their paths, which it makes as virtual nodes where there are none.
-/

namespace TaskExplorer.TreeItemModel
open Forest OrderedMap

/-- A node has its address, `parent` is the address of the node above it. -/
structure STreeNode (α : Type) where
  ptr : Nat
  id : α
  parent : Nat
  path : List α
  isVirtual : Bool
deriving DecidableEq, Repr

/-- The address of `m_Root`; no node is at 0. -/
def root : Nat := 1

section
variable {α : Type}

/-- The links up are the links down the other way. -/
def Linked : Nat → Rows (STreeNode α) → Prop
  | _, .nil => True
  | parent, .cons _ node children rest => node.parent = parent ∧ Linked node.ptr children ∧ Linked parent rest

theorem linked_renumber {parent : Nat} {rows : Rows (STreeNode α)} (linked : Linked parent rows) (index : Nat) :
    Linked parent (rows.renumber index) := by
  induction rows generalizing index with
  | nil => trivial
  | cons row node children rest _ ih => exact ⟨linked.1, linked.2.1, ih linked.2.2 _⟩

theorem linked_snoc {parent : Nat} {rows : Rows (STreeNode α)} (linked : Linked parent rows) {node : STreeNode α} (isParent : node.parent = parent)
    (row : Nat) : Linked parent (rows.snoc node row) := by
  induction rows with
  | nil => exact ⟨isParent, trivial, trivial⟩
  | cons first other children rest _ ih => exact ⟨linked.1, linked.2.1, ih linked.2.2⟩

theorem linked_hang {parent : Nat} {rows : Rows (STreeNode α)} (linked : Linked parent rows) (node : STreeNode α) :
    Linked parent (hang (fun other => other.ptr == node.parent) node rows) := by
  induction rows generalizing parent with
  | nil => trivial
  | cons row other children rest inner ih =>
    refine ⟨linked.1, ?_, ih linked.2.2⟩
    split_ifs with isTarget
    · exact linked_snoc linked.2.1 (eq_of_beq isTarget).symm _
    · exact inner linked.2.1

end

/-- The rows below `m_Root`, `m_Map`, and the address of the next node. -/
structure Model (α : Type) [LinearOrder α] where
  rows : Rows (STreeNode α)
  map : OrdMap α Nat
  next : Nat

section
variable {α : Type} [LinearOrder α]

def initial : Model α := ⟨.nil, OrdMap.empty, root + 1⟩

def node_at (rows : Rows (STreeNode α)) (ptr : Nat) : Option (STreeNode α) := (nodes rows).find? (fun node => node.ptr == ptr)

/-! ## Purge -/

section
variable (null pinned : α → Bool) (old : OrdMap α (Option Nat))

/-- `Old.value`: a node that was found again has no entry of its own any more. -/
def value (id : α) : Option Nat := (old.get id).join

/-- `Purge` goes through the rows from the last to the first; `pending` are rows it has
not taken out yet, and `renumbered` is that it has given new numbers to all of them. -/
structure Sweep (α : Type) [LinearOrder α] where
  rows : Rows (STreeNode α)
  pending : Bool
  renumbered : Bool
  map : OrdMap α Nat

def Sweep.finish (sweep : Sweep α) : Rows (STreeNode α) := bif sweep.pending then sweep.rows.renumber 0 else sweep.rows

/-- `bRemove`: the node is not virtual, and the list did not have it where it is. -/
def bRemove (node : STreeNode α) : Bool := !node.isVirtual && !null node.id && (value old node.id).isSome

def purge : Nat → Rows (STreeNode α) → OrdMap α Nat → Sweep α
  | _, .nil, map => ⟨.nil, false, false, map⟩
  | index, .cons row node children rest, map =>
    let later := purge (index + 1) rest map
    let below := purge 0 children later.map
    bif (node.isVirtual || null node.id || bRemove null old node) && below.finish.isEmpty && !pinned node.id then
      ⟨later.rows, true, later.renumbered, below.map.erase node.id⟩
    else
      let map := bif bRemove null old node then below.map.erase node.id else below.map
      bif later.pending then ⟨.cons index node below.finish (later.rows.renumber (index + 1)), false, true, map⟩
      else ⟨.cons (bif later.renumbered then index else row) node below.finish later.rows, false, later.renumbered, map⟩

def purge_root (model : Model α) : Model α :=
  let sweep := purge null pinned old 0 model.rows model.map
  { model with rows := sweep.finish, map := sweep.map }

end

/-! ## Fill -/

/-- A node behind the others below its parent. -/
def append (parent : Nat) (node : STreeNode α) (rows : Rows (STreeNode α)) : Rows (STreeNode α) :=
  if parent = root then rows.snoc node rows.length else hang (fun other => other.ptr == parent) node rows

/-- The node of a step of a path, made where `m_Map` has none. -/
def branch (model : Model α) (parent : Nat) (step : α) : Model α × Nat :=
  match model.map.get step with
  | some ptr => (model, ptr)
  | none =>
    ({ rows := append parent ⟨model.next, step, parent, [], true⟩ model.rows
       map := model.map.insert step model.next
       next := model.next + 1 }, model.next)

def put_node (parent : Nat) (model : Model α) (node : STreeNode α) : Model α :=
  { model with rows := append parent { node with parent := parent } model.rows, map := model.map.insert node.id node.ptr }

def fill (model : Model α) (parent : Nat) (fresh : List (STreeNode α)) : List α → Model α
  | [] => fresh.foldl (put_node parent) model
  | step :: rest => fill (branch model parent step).1 (branch model parent step).2 fresh rest

/-! ## Sync and Clear -/

/-- An entry of a list: `path` is what `MakePath` makes of it, `test` what `TestPath` says of the path of its node. -/
structure Entry (α : Type) where
  id : α
  path : List α
  test : List α → Bool

/-- `Old` and `New` while `Sync` goes through the list. -/
structure Loop (α : Type) [LinearOrder α] where
  old : OrdMap α (Option Nat)
  fresh : OrdMap (List α) (List (STreeNode α))
  next : Nat

def Loop.add (loop : Loop α) (entry : Entry α) : Loop α :=
  { loop with
    fresh := loop.fresh.insert entry.path ((loop.fresh.get entry.path).getD [] ++ [⟨loop.next, entry.id, 0, entry.path, false⟩])
    next := loop.next + 1 }

def Loop.take (rows : Rows (STreeNode α)) (loop : Loop α) (entry : Entry α) : Loop α :=
  match (value loop.old entry.id).bind (node_at rows) with
  | none => loop.add entry
  | some node => bif entry.test node.path then { loop with old := loop.old.insert entry.id none } else loop.add entry

def Model.begin (model : Model α) : Loop α := ⟨model.map.mapValues (fun _ ptr => some ptr), OrdMap.empty, model.next⟩

def sync (null pinned : α → Bool) (entries : List (Entry α)) (model : Model α) : Model α :=
  let loop := entries.foldl (Loop.take model.rows) model.begin
  let purged := bif loop.old.entries.isEmpty then model else purge_root null pinned loop.old model
  loop.fresh.entries.foldl (fun model pair => fill model root pair.2 pair.1) { purged with next := loop.next }

def clear (null pinned : α → Bool) (model : Model α) : Model α := purge_root null pinned model.begin.old model

/-! ## What purging leaves -/

section
variable (null pinned : α → Bool) (old : OrdMap α (Option Nat))

/-- A node that is not taken out, whatever is below it. -/
def stays (node : STreeNode α) : Bool := !(node.isVirtual || null node.id || bRemove null old node) || pinned node.id

/-- The ids that purging takes out of the map. -/
def Erased (id : α) : Rows (STreeNode α) → Prop
  | .nil => False
  | .cons _ node children rest =>
    Erased id rest ∨ Erased id children ∨
      (node.id = id ∧ ((stays null pinned old node = false ∧ prune (stays null pinned old) children = .nil) ∨ bRemove null old node = true))

theorem finish_places (sweep : Sweep α) (position : List α) : places STreeNode.id position sweep.finish = places STreeNode.id position sweep.rows := by
  rw [Sweep.finish]
  cases sweep.pending with
  | true => exact places_renumber _ _ _ _
  | false => rfl

theorem purge_cases (index row : Nat) (node : STreeNode α) (children rest : Rows (STreeNode α)) (map : OrdMap α Nat)
    (inside : ∀ (position : List α) index map, places STreeNode.id position (purge null pinned old index children map).rows =
      places STreeNode.id position (prune (stays null pinned old) children)) :
    let later := purge null pinned old (index + 1) rest map
    let below := purge null pinned old 0 children later.map
    ((stays null pinned old node = false ∧ prune (stays null pinned old) children = .nil) ∧
      purge null pinned old index (.cons row node children rest) map = ⟨later.rows, true, later.renumbered, below.map.erase node.id⟩) ∨
    (¬ (stays null pinned old node = false ∧ prune (stays null pinned old) children = .nil) ∧
      (purge null pinned old index (.cons row node children rest) map).pending = false ∧
      (purge null pinned old index (.cons row node children rest) map).map =
        (bif bRemove null old node then below.map.erase node.id else below.map) ∧
      ((later.pending = true ∧
        (purge null pinned old index (.cons row node children rest) map).rows = .cons index node below.finish (later.rows.renumber (index + 1))) ∨
       (later.pending = false ∧ ∃ number, (number = index ∨ number = row) ∧
        (purge null pinned old index (.cons row node children rest) map).rows = .cons number node below.finish later.rows))) := by
  intro later below
  have empty : below.finish.isEmpty = (prune (stays null pinned old) children).isEmpty :=
    @isEmpty_of_places _ _ STreeNode.id _ _ [] ((finish_places below []).trans (inside [] 0 later.map))
  have condition : ((node.isVirtual || null node.id || bRemove null old node) && below.finish.isEmpty && !pinned node.id) =
      (!stays null pinned old node && (prune (stays null pinned old) children).isEmpty) := by
    rw [empty, stays, Bool.not_or, Bool.not_not, Bool.and_right_comm]
  rw [purge]
  simp only [show purge null pinned old (index + 1) rest map = later from rfl, show purge null pinned old 0 children later.map = below from rfl, condition]
  cases gone : !stays null pinned old node && (prune (stays null pinned old) children).isEmpty with
  | true =>
    rw [Bool.and_eq_true, Bool.not_eq_true', rows_isEmpty_iff] at gone
    exact .inl ⟨gone, rfl⟩
  | false =>
    refine .inr ⟨?_, ?_⟩
    · rintro ⟨leaves, nothing⟩
      rw [leaves, (rows_isEmpty_iff _).mpr nothing] at gone
      cases gone
    · cases later.pending with
      | true => exact ⟨rfl, rfl, .inl ⟨rfl, rfl⟩⟩
      | false =>
        refine ⟨rfl, rfl, .inr ⟨rfl, _, ?_, rfl⟩⟩
        cases later.renumbered with
        | true => exact .inl rfl
        | false => exact .inr rfl

theorem purge_places (rows : Rows (STreeNode α)) (position : List α) (index : Nat) (map : OrdMap α Nat) :
    places STreeNode.id position (purge null pinned old index rows map).rows =
      places STreeNode.id position (prune (stays null pinned old) rows) := by
  induction rows generalizing position index map with
  | nil => rfl
  | cons row node children rest inner ih =>
    rcases purge_cases null pinned old index row node children rest map inner with ⟨gone, same⟩ | ⟨kept, -, -, shape⟩
    · rw [same, ih, prune, gone.1, gone.2]
      rfl
    · rcases prune_cases (stays null pinned old) row node children rest with ⟨leaves, nothing, -⟩ | ⟨-, pruned⟩
      · exact absurd ⟨leaves, nothing⟩ kept
      · rw [pruned, places_cons]
        rcases shape with ⟨-, same⟩ | ⟨-, number, -, same⟩
        · rw [same, places_cons, finish_places, places_renumber, inner, ih]
        · rw [same, places_cons, finish_places, inner, ih]

theorem finish_numbered {sweep : Sweep α} (below : sweep.rows.NumberedBelow) (numbered : sweep.pending = false → sweep.rows.Numbered 0) :
    sweep.finish.Numbered 0 := by
  rw [Sweep.finish]
  cases pending : sweep.pending with
  | true => exact numbered_renumber below 0
  | false => exact numbered pending

variable {rows : Rows (STreeNode α)}

theorem purge_numbered {index : Nat} (numbered : rows.Numbered index) (map : OrdMap α Nat) :
    (purge null pinned old index rows map).rows.NumberedBelow ∧
      ((purge null pinned old index rows map).pending = false → (purge null pinned old index rows map).rows.Numbered index) := by
  induction rows generalizing index map with
  | nil => exact ⟨trivial, fun _ => trivial⟩
  | cons row node children rest inner ih =>
    obtain ⟨isRow, inside, after⟩ := numbered
    obtain ⟨laterBelow, laterNumbered⟩ := ih after map
    have belowNumbered : (purge null pinned old 0 children (purge null pinned old (index + 1) rest map).map).finish.Numbered 0 :=
      finish_numbered (inner inside _).1 (inner inside _).2
    rcases purge_cases null pinned old index row node children rest map (purge_places null pinned old children) with
      ⟨-, same⟩ | ⟨-, -, -, ⟨-, same⟩ | ⟨settled, number, isNumber, same⟩⟩
    · rw [same]
      exact ⟨laterBelow, fun pending => by cases pending⟩
    · rw [same]
      have rows : (Rows.cons index node (purge null pinned old 0 children (purge null pinned old (index + 1) rest map).map).finish
          ((purge null pinned old (index + 1) rest map).rows.renumber (index + 1))).Numbered index :=
        ⟨rfl, belowNumbered, numbered_renumber laterBelow _⟩
      exact ⟨rows.below, fun _ => rows⟩
    · rw [same]
      have isIndex : number = index := isNumber.elim id (fun isOld => isOld.trans isRow)
      have rows : (Rows.cons number node (purge null pinned old 0 children (purge null pinned old (index + 1) rest map).map).finish
          (purge null pinned old (index + 1) rest map).rows).Numbered index :=
        ⟨isIndex, belowNumbered, laterNumbered settled⟩
      exact ⟨rows.below, fun _ => rows⟩

theorem finish_linked {sweep : Sweep α} {parent : Nat} (linked : Linked parent sweep.rows) : Linked parent sweep.finish := by
  rw [Sweep.finish]
  cases sweep.pending with
  | true => exact linked_renumber linked 0
  | false => exact linked

theorem purge_linked {parent : Nat} (linked : Linked parent rows) (index : Nat) (map : OrdMap α Nat) :
    Linked parent (purge null pinned old index rows map).rows := by
  induction rows generalizing parent index map with
  | nil => trivial
  | cons row node children rest inner ih =>
    obtain ⟨isParent, inside, after⟩ := linked
    rcases purge_cases null pinned old index row node children rest map (purge_places null pinned old children) with
      ⟨-, same⟩ | ⟨-, -, -, ⟨-, same⟩ | ⟨-, number, -, same⟩⟩
    · rw [same]
      exact ih after _ _
    · rw [same]
      exact ⟨isParent, finish_linked (inner inside _ _), linked_renumber (ih after _ _) _⟩
    · rw [same]
      exact ⟨isParent, finish_linked (inner inside _ _), ih after _ _⟩

theorem purge_map (rows : Rows (STreeNode α)) (index : Nat) (map : OrdMap α Nat) (id : α) (ptr : Nat) :
    (purge null pinned old index rows map).map.get id = some ptr ↔ ¬ Erased null pinned old id rows ∧ map.get id = some ptr := by
  induction rows generalizing index map with
  | nil => simp [purge, Erased]
  | cons row node children rest inner ih =>
    rcases purge_cases null pinned old index row node children rest map (purge_places null pinned old children) with
      ⟨gone, same⟩ | ⟨kept, -, same, -⟩
    · rw [same, OrdMap.get_erase, Erased]
      by_cases isNode : id = node.id
      · simp [isNode, gone]
      · simp [Ne.symm isNode, inner, ih, and_assoc, and_left_comm]
    · rw [same, Erased]
      cases removes : bRemove null old node with
      | true =>
        rw [cond_true, OrdMap.get_erase]
        by_cases isNode : id = node.id
        · simp [isNode]
        · simp [Ne.symm isNode, inner, ih, and_assoc, and_left_comm]
      | false => simp [kept, inner, ih, and_assoc, and_left_comm]

variable {null pinned old}

theorem Erased.mem {id : α} (erased : Erased null pinned old id rows) : ∃ node ∈ nodes rows, node.id = id := by
  induction rows with
  | nil => cases erased
  | cons row node children rest inner ih =>
    rw [nodes]
    rcases erased with after | inside | ⟨isNode, -⟩
    · obtain ⟨other, member, isOther⟩ := ih after
      exact ⟨other, by simp [member], isOther⟩
    · obtain ⟨other, member, isOther⟩ := inner inside
      exact ⟨other, by simp [member], isOther⟩
    · exact ⟨node, by simp, isNode⟩

theorem kept_of_not_erased {node : STreeNode α} (member : node ∈ nodes rows)
    (known : ¬ Erased null pinned old node.id rows) : node ∈ nodes (prune (stays null pinned old) rows) := by
  induction rows with
  | nil => cases member
  | cons row other children rest inner ih =>
    rw [Erased, not_or, not_or] at known
    obtain ⟨after, inside, here⟩ := known
    rw [nodes, List.mem_cons, List.mem_append] at member
    rcases prune_cases (stays null pinned old) row other children rest with ⟨leaves, nothing, same⟩ | ⟨-, same⟩ <;> rw [same]
    · rcases member with rfl | below | beside
      · exact absurd ⟨rfl, .inl ⟨leaves, nothing⟩⟩ here
      · have kept := inner below inside
        rw [nothing] at kept
        cases kept
      · exact ih beside after
    · rw [nodes, List.mem_cons, List.mem_append]
      rcases member with rfl | below | beside
      · exact .inl rfl
      · exact .inr (.inl (inner below inside))
      · exact .inr (.inr (ih beside after))

theorem not_erased_of_kept (unique : ((nodes rows).map STreeNode.id).Nodup) {node : STreeNode α}
    (member : node ∈ nodes (prune (stays null pinned old) rows)) (wanted : bRemove null old node = false) :
    ¬ Erased null pinned old node.id rows := by
  induction rows with
  | nil => cases member
  | cons row other children rest inner ih =>
    rw [nodes, List.map_cons, List.map_append, List.nodup_cons, List.nodup_append, List.mem_append, not_or] at unique
    obtain ⟨⟨notBelow, notBeside⟩, uniqueBelow, uniqueBeside, apart⟩ := unique
    have inBelow : ∀ {id}, Erased null pinned old id children → id ∈ (nodes children).map STreeNode.id := fun erased =>
      List.mem_map.mpr erased.mem
    have inBeside : ∀ {id}, Erased null pinned old id rest → id ∈ (nodes rest).map STreeNode.id := fun erased =>
      List.mem_map.mpr erased.mem
    have ofBelow : ∀ {node : STreeNode α}, node ∈ nodes (prune (stays null pinned old) children) → node.id ∈ (nodes children).map STreeNode.id :=
      fun among => List.mem_map_of_mem ((nodes_prune _ _).subset among)
    have ofBeside : ∀ {node : STreeNode α}, node ∈ nodes (prune (stays null pinned old) rest) → node.id ∈ (nodes rest).map STreeNode.id :=
      fun among => List.mem_map_of_mem ((nodes_prune _ _).subset among)
    have beside : node ∈ nodes (prune (stays null pinned old) rest) → ¬ Erased null pinned old node.id (.cons row other children rest) := by
      rintro among (after | inside | ⟨isNode, -⟩)
      · exact ih uniqueBeside among after
      · exact apart _ (inBelow inside) _ (ofBeside among) rfl
      · exact notBeside (isNode ▸ ofBeside among)
    rcases prune_cases (stays null pinned old) row other children rest with ⟨-, -, same⟩ | ⟨kept, same⟩ <;> rw [same] at member
    · exact beside member
    · rw [nodes, List.mem_cons, List.mem_append] at member
      rcases member with rfl | below | later
      · rintro (after | inside | ⟨-, gone | removed⟩)
        · exact notBeside (inBeside after)
        · exact notBelow (inBelow inside)
        · exact kept gone
        · rw [wanted] at removed
          cases removed
      · rintro (after | inside | ⟨isNode, -⟩)
        · exact apart _ (ofBelow below) _ (inBeside after) rfl
        · exact inner uniqueBelow below inside
        · exact notBelow (isNode ▸ ofBelow below)
      · exact beside later

end

/-! ## A tidy model -/

/-- The rows have their numbers and links, and the map has every node under its own id. -/
structure Tidy (model : Model α) : Prop where
  numbered : model.rows.Numbered 0
  linked : Linked root model.rows
  ids : ((nodes model.rows).map STreeNode.id).Nodup
  ptrs : ((nodes model.rows).map STreeNode.ptr).Nodup
  mapped : ∀ id ptr, model.map.get id = some ptr ↔ ∃ node ∈ nodes model.rows, node.id = id ∧ node.ptr = ptr
  bounds : ∀ node ∈ nodes model.rows, root < node.ptr ∧ node.ptr < model.next

theorem initial_tidy : Tidy (initial : Model α) where
  numbered := trivial
  linked := trivial
  ids := List.nodup_nil
  ptrs := List.nodup_nil
  mapped := by simp [initial, nodes]
  bounds := by simp [initial, nodes]

theorem purge_root_places (null pinned : α → Bool) (old : OrdMap α (Option Nat)) (model : Model α) :
    places STreeNode.id [] (purge_root null pinned old model).rows = places STreeNode.id [] (prune (stays null pinned old) model.rows) := by
  rw [purge_root, finish_places, purge_places]

theorem purge_root_nodes (null pinned : α → Bool) (old : OrdMap α (Option Nat)) (model : Model α) :
    nodes (purge_root null pinned old model).rows = nodes (prune (stays null pinned old) model.rows) := by
  rw [← places_nodes STreeNode.id _ [], purge_root_places, places_nodes]

theorem Tidy.purge {model : Model α} (tidy : Tidy model) {null pinned : α → Bool} {old : OrdMap α (Option Nat)}
    (wanted : ∀ node ∈ nodes (prune (stays null pinned old) model.rows), bRemove null old node = false) :
    Tidy (purge_root null pinned old model) where
  numbered := by
    obtain ⟨below, numbered⟩ := purge_numbered null pinned old tidy.numbered model.map
    exact finish_numbered below numbered
  linked := finish_linked (purge_linked null pinned old tidy.linked _ _)
  ids := by
    rw [purge_root_nodes]
    exact tidy.ids.sublist ((nodes_prune _ _).map _)
  ptrs := by
    rw [purge_root_nodes]
    exact tidy.ptrs.sublist ((nodes_prune _ _).map _)
  mapped id ptr := by
    rw [purge_root_nodes]
    refine (purge_map null pinned old model.rows 0 model.map id ptr).trans ?_
    rw [tidy.mapped]
    constructor
    · rintro ⟨known, node, member, rfl, isPtr⟩
      exact ⟨node, kept_of_not_erased member known, rfl, isPtr⟩
    · rintro ⟨node, member, rfl, isPtr⟩
      exact ⟨not_erased_of_kept tidy.ids member (wanted node member), node, (nodes_prune _ _).subset member, rfl, isPtr⟩
  bounds node member := by
    rw [purge_root_nodes] at member
    exact tidy.bounds node ((nodes_prune _ _).subset member)

end

end TaskExplorer.TreeItemModel
