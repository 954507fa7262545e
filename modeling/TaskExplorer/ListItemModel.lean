import Mathlib
import TaskExplorer.Transition

/-!
# The list model

A view shows the rows of `m_List`. `Sync` takes the entries that are to be shown,
keeps the nodes of those that were there, drops the others in runs of adjacent rows
from the back, and appends a node for each new one. Rows are found through two more
containers: `m_RevList` gives the row of a node, and `m_Map` the node of an id. Ids
are not null; what the columns of a node show is left out.
-/

namespace TaskExplorer.ListItemModel
open Transition

universe u

/-- A node and where it is in memory. -/
structure SListNode (α : Type u) where
  id : α
  pointer : Nat
deriving DecidableEq, Repr

/-- What a view is told; both bounds belong to the range. -/
inductive Announcement where
  | remove (first last : Nat)
  | insert (first last : Nat)
deriving DecidableEq, Repr

structure CListItemModel (α : Type u) where
  list : List (SListNode α)
  revList : Nat → Option Nat
  map : α → Option (SListNode α)

/-- The memory that `new` gives is not in use. -/
structure Allocator where
  next : List Nat → Nat
  unused : ∀ live, next live ∉ live

section
variable {α : Type u}

def empty : CListItemModel α := ⟨[], fun _ => none, fun _ => none⟩

/-- Row numbers without those of some nodes. -/
def unlisted (nodes : List (SListNode α)) (rows : Nat → Option Nat) : Nat → Option Nat :=
  nodes.foldr (fun node rows => Function.update rows node.pointer none) rows

/-- The rows from `first` to `last` are taken out, each with its number. -/
def remove_rows (model : CListItemModel α) (first last : Nat) : CListItemModel α :=
  { model with
    list := model.list.take first ++ model.list.drop (last + 1)
    revList := unlisted ((model.list.take (last + 1)).drop first) model.revList }

def clear (model : CListItemModel α) : CListItemModel α × List Announcement :=
  if model.list.length = 0 then (model, []) else (empty, [.remove 0 (model.list.length - 1)])

/-- The numbers of all rows again. -/
def renumber (first : Nat) : List (SListNode α) → (Nat → Option Nat) → Nat → Option Nat
  | [], rows => rows
  | node :: rest, rows => renumber (first + 1) rest (Function.update rows node.pointer (some first))

variable [DecidableEq α]

/-- What the loop over the rows works on. -/
structure Removal (α : Type u) where
  model : CListItemModel α
  removed : Nat
  announced : List Announcement

/-- `m_Map.remove`. -/
def forget (state : Removal α) (id : α) : Removal α :=
  { state with model := { state.model with map := Function.update state.model.map id none } }

omit [DecidableEq α] in
/-- A run of rows is removed at once. -/
def flush (state : Removal α) (first last : Nat) : Removal α :=
  ⟨remove_rows state.model first last, state.removed + (last + 1 - first), state.announced ++ [.remove first last]⟩

/-- The rows before `row`, from the last to the first; `last` is the end of a run that
    is to be removed. -/
def remove_loop (old : α → Option (SListNode α)) : Nat → Option Nat → Removal α → Removal α
  | 0, none, state => state
  | 0, some last, state => flush state 0 last
  | row + 1, pending, state =>
    match state.model.list[row]? with
    | none => state
    | some node =>
      if (old node.id).isSome then remove_loop old row (some (pending.getD row)) (forget state node.id)
      else
        match pending with
        | some last => remove_loop old row none (flush state (row + 1) last)
        | none => remove_loop old row none state

def append_node (model : CListItemModel α) (node : SListNode α) : CListItemModel α :=
  { list := model.list ++ [node]
    revList := Function.update model.revList node.pointer (some model.list.length)
    map := Function.update model.map node.id (some node) }

/-- `CListItemModel::Sync`. -/
def sync_nodes (model : CListItemModel α) (new : List (SListNode α)) (old : α → Option (SListNode α)) :
    CListItemModel α × List Announcement :=
  let swept := remove_loop old model.list.length none ⟨model, 0, []⟩
  let numbered := if 0 < swept.removed then { swept.model with revList := renumber 0 swept.model.list swept.model.revList } else swept.model
  let later := new.foldl append_node numbered
  (later, if numbered.list.length < later.list.length then
      swept.announced ++ [.insert numbered.list.length (later.list.length - 1)]
    else swept.announced)

/-- The entries that have no node get one, the others are taken out of `Old`. -/
def sort_entries (allocator : Allocator) (live : List Nat) : List α → (α → Option (SListNode α)) → List (SListNode α) × (α → Option (SListNode α))
  | [], old => ([], old)
  | id :: rest, old =>
    match old id with
    | none =>
      let node : SListNode α := ⟨id, allocator.next live⟩
      let sorted := sort_entries allocator (node.pointer :: live) rest old
      (node :: sorted.1, sorted.2)
    | some _ => sort_entries allocator live rest (Function.update old id none)

/-- `CSimpleListModel::Sync`. -/
def sync (allocator : Allocator) (model : CListItemModel α) (entries : List α) : CListItemModel α × List Announcement :=
  let sorted := sort_entries allocator (model.list.map SListNode.pointer) entries model.map
  sync_nodes model sorted.1 sorted.2

/-! ## Replaying -/

/-- What a view makes of an announcement; the rows that were inserted are read from
    the model. -/
def replay (shown : List (SListNode α)) (rows : List (SListNode α)) : Announcement → List (SListNode α)
  | .remove first last => rows.take first ++ rows.drop (last + 1)
  | .insert first last => rows.take first ++ (shown.drop first).take (last + 1 - first) ++ rows.drop first

/-! ## Removing rows -/

omit [DecidableEq α] in
theorem unlisted_append (before after : List (SListNode α)) (rows : Nat → Option Nat) :
    unlisted (before ++ after) rows = unlisted before (unlisted after rows) := List.foldr_append

variable {nodes : List (SListNode α)}

omit [DecidableEq α] in
theorem unlisted_of_mem {node : SListNode α} (member : node ∈ nodes) (rows : Nat → Option Nat) :
    unlisted nodes rows node.pointer = none := by
  induction nodes with
  | nil => cases member
  | cons first rest ih =>
    rw [unlisted, List.foldr_cons]
    by_cases here : node.pointer = first.pointer
    · rw [here, Function.update_self]
    · rw [Function.update_of_ne here]
      rcases List.mem_cons.mp member with rfl | later
      · exact absurd rfl here
      · exact ih later

omit [DecidableEq α] in
theorem unlisted_of_not_mem {pointer : Nat} (absent : pointer ∉ nodes.map SListNode.pointer) (rows : Nat → Option Nat) :
    unlisted nodes rows pointer = rows pointer := by
  induction nodes with
  | nil => rfl
  | cons first rest ih =>
    rw [List.map_cons, List.mem_cons, not_or] at absent
    rw [unlisted, List.foldr_cons, Function.update_of_ne absent.1]
    exact ih absent.2

/-- The node is not to be shown any more. -/
def Dropped (old : α → Option (SListNode α)) (node : SListNode α) : Bool := (old node.id).isSome

/-- What the loop makes of the rows before `row`, with those up to `stop` waiting to be
    removed. -/
structure Swept (old : α → Option (SListNode α)) (row stop : Nat) (first last : Removal α) : Prop where
  list : last.model.list = (first.model.list.take row).filter (fun node => !Dropped old node) ++ first.model.list.drop stop
  gone : ∀ node ∈ first.model.list.take row, Dropped old node = true → last.model.map node.id = none
  kept : ∀ id, (∀ node ∈ first.model.list.take row, Dropped old node = true → node.id ≠ id) → last.model.map id = first.model.map id
  rows : last.model.revList =
    unlisted ((first.model.list.take row).filter (Dropped old) ++ (first.model.list.take stop).drop row) first.model.revList
  announced : ∃ more, last.announced = first.announced ++ more ∧
    ∀ shown, more.foldl (replay shown) first.model.list = last.model.list
  removed : last.removed + last.model.list.length = first.removed + first.model.list.length

section
variable {old : α → Option (SListNode α)} {row : Nat} {pending : Option Nat} {state : Removal α} {node : SListNode α}

theorem remove_loop_dropped (found : state.model.list[row]? = some node) (dropped : Dropped old node = true) :
    remove_loop old (row + 1) pending state = remove_loop old row (some (pending.getD row)) (forget state node.id) := by
  have present : (old node.id).isSome = true := dropped
  cases pending <;> simp [remove_loop, found, present]

theorem remove_loop_flush (found : state.model.list[row]? = some node) (kept : Dropped old node = false) (last : Nat) :
    remove_loop old (row + 1) (some last) state = remove_loop old row none (flush state (row + 1) last) := by
  have absent : (old node.id).isSome = false := kept
  rw [remove_loop.eq_def]
  simp [found, absent]

theorem remove_loop_kept (found : state.model.list[row]? = some node) (kept : Dropped old node = false) :
    remove_loop old (row + 1) none state = remove_loop old row none state := by
  have absent : (old node.id).isSome = false := kept
  rw [remove_loop.eq_def]
  simp [found, absent]

end

theorem remove_loop_swept (old : α → Option (SListNode α)) (row : Nat) : ∀ (pending : Option Nat) (state : Removal α),
    row ≤ (pending.map (fun last => last + 1)).getD row → (pending.map (fun last => last + 1)).getD row ≤ state.model.list.length →
    Swept old row ((pending.map (fun last => last + 1)).getD row) state (remove_loop old row pending state) := by
  induction row with
  | zero =>
    intro pending state _ inside
    cases pending with
    | none =>
      exact ⟨by simp [remove_loop], by simp, by simp [remove_loop], by simp [remove_loop, unlisted], ⟨[], by simp [remove_loop]⟩,
        by simp [remove_loop]⟩
    | some last =>
      have inside : last + 1 ≤ state.model.list.length := inside
      refine ⟨by simp [remove_loop, flush, remove_rows], by simp, by simp [remove_loop, flush, remove_rows], ?_,
        ⟨[.remove 0 last], rfl, ?_⟩, ?_⟩
      · simp [remove_loop, flush, remove_rows]
      · intro shown
        simp [replay, remove_loop, flush, remove_rows]
      · simp only [remove_loop, flush, remove_rows, List.take_zero, List.nil_append, List.length_drop]
        omega
  | succ row ih =>
    intro pending state before inside
    have there : row < state.model.list.length := by omega
    obtain ⟨node, found⟩ : ∃ node, state.model.list[row]? = some node := ⟨_, List.getElem?_eq_getElem there⟩
    have split : state.model.list.take (row + 1) = state.model.list.take row ++ [node] := by
      rw [List.take_add_one, found]
      rfl
    cases dropped : Dropped old node with
    | true =>
      have stop : ((some (pending.getD row)).map (fun last => last + 1)).getD row = (pending.map (fun last => last + 1)).getD (row + 1) := by
        cases pending <;> rfl
      have below := ih (some (pending.getD row)) (forget state node.id) (by rw [stop]; omega) (by rw [stop]; exact inside)
      rw [stop] at below
      have window : (state.model.list.take ((pending.map (fun last => last + 1)).getD (row + 1))).drop row =
          node :: (state.model.list.take ((pending.map (fun last => last + 1)).getD (row + 1))).drop (row + 1) := by
        rw [List.drop_eq_getElem?_toList_append, List.getElem?_take_of_lt (by omega), found]
        rfl
      rw [remove_loop_dropped found dropped]
      refine ⟨?_, ?_, ?_, ?_, below.announced, below.removed⟩
      · rw [below.list, split, List.filter_append]
        simp [dropped, forget]
      · intro other member isDropped
        rw [split] at member
        rcases List.mem_append.mp member with earlier | last
        · exact below.gone other earlier isDropped
        · rw [List.mem_singleton.mp last]
          by_cases again : ∀ other ∈ state.model.list.take row, Dropped old other = true → other.id ≠ node.id
          · rw [below.kept _ again]
            simp [forget]
          · push Not at again
            obtain ⟨another, among, isDropped, same⟩ := again
            have gone := below.gone another among isDropped
            rw [same] at gone
            exact gone
      · intro id differs
        rw [split] at differs
        rw [below.kept id (fun node member => differs node (List.mem_append_left _ member))]
        have apart := differs node (List.mem_append_right _ List.mem_cons_self) dropped
        simp [forget, Function.update_of_ne (Ne.symm apart)]
      · rw [below.rows]
        simp only [forget]
        rw [window, split, List.filter_append]
        simp [dropped]
    | false =>
      have front : (state.model.list.take (row + 1)).filter (Dropped old) = (state.model.list.take row).filter (Dropped old) := by
        rw [split, List.filter_append]
        simp [dropped]
      have rest : (state.model.list.take (row + 1)).filter (fun node => !Dropped old node) =
          (state.model.list.take row).filter (fun node => !Dropped old node) ++ [node] := by
        rw [split, List.filter_append]
        simp [dropped]
      have others {id : α} (differs : ∀ other ∈ state.model.list.take (row + 1), Dropped old other = true → other.id ≠ id) :
          ∀ other ∈ state.model.list.take row, Dropped old other = true → other.id ≠ id :=
        fun other member => differs other (by rw [split]; exact List.mem_append_left _ member)
      have earlier {other : SListNode α} (member : other ∈ state.model.list.take (row + 1)) (isDropped : Dropped old other = true) :
          other ∈ state.model.list.take row := by
        rw [split] at member
        rcases List.mem_append.mp member with before | last
        · exact before
        · rw [List.mem_singleton.mp last, dropped] at isDropped
          cases isDropped
      cases pending with
      | none =>
        have below := ih none state (Nat.le_refl row) (Nat.le_of_lt there)
        rw [remove_loop_kept found dropped]
        refine ⟨?_, ?_, ?_, ?_, below.announced, below.removed⟩
        · rw [below.list, rest, List.append_assoc]
          congr 1
          change state.model.list.drop row = [node] ++ state.model.list.drop (row + 1)
          rw [List.drop_eq_getElem?_toList_append, found]
          rfl
        · exact fun other member isDropped => below.gone other (earlier member isDropped) isDropped
        · exact fun id differs => below.kept id (others differs)
        · rw [below.rows, front]
          simp
      | some last =>
        have inside : last + 1 ≤ state.model.list.length := inside
        have before : row + 1 ≤ last + 1 := before
        have kept : (flush state (row + 1) last).model.list.take row = state.model.list.take row := by
          simp only [flush, remove_rows]
          rw [List.take_append_of_le_length (by simp; omega), List.take_take, Nat.min_eq_left (by omega)]
        have behind : (flush state (row + 1) last).model.list.drop row = node :: state.model.list.drop (last + 1) := by
          simp only [flush, remove_rows]
          rw [split, List.append_assoc, List.drop_append_of_le_length (by simp; omega)]
          simp
        have length : (flush state (row + 1) last).model.list.length + (last - row) = state.model.list.length := by
          simp only [flush, remove_rows, List.length_append, List.length_take, List.length_drop]
          omega
        have below := ih none (flush state (row + 1) last) (Nat.le_refl row) (by
          change row ≤ (flush state (row + 1) last).model.list.length
          omega)
        rw [remove_loop_flush found dropped]
        refine ⟨?_, ?_, ?_, ?_, ?_, ?_⟩
        · rw [below.list, kept, rest, List.append_assoc]
          change _ ++ (flush state (row + 1) last).model.list.drop row = _
          rw [behind]
          rfl
        · intro other member isDropped
          exact below.gone other (by rw [kept]; exact earlier member isDropped) isDropped
        · intro id differs
          rw [below.kept id (by rw [kept]; exact others differs)]
          rfl
        · rw [below.rows, kept, front, unlisted_append, unlisted_append]
          have nothing : ((flush state (row + 1) last).model.list.take row).drop row = [] := by simp
          change unlisted _ (unlisted (((flush state (row + 1) last).model.list.take row).drop row) _) = _
          rw [nothing]
          rfl
        · obtain ⟨more, announced, replays⟩ := below.announced
          refine ⟨.remove (row + 1) last :: more, ?_, ?_⟩
          · rw [announced]
            simp [flush]
          · intro shown
            rw [List.foldl_cons]
            exact replays shown
        · have sum := below.removed
          simp only [flush] at sum length ⊢
          omega

/-! ## The three containers -/

/-- `m_RevList` numbers the rows, and `m_Map` has the nodes under their ids. -/
structure Structured (model : CListItemModel α) : Prop where
  ids : (model.list.map SListNode.id).Nodup
  pointers : (model.list.map SListNode.pointer).Nodup
  map : ∀ id node, model.map id = some node ↔ node ∈ model.list ∧ node.id = id
  rows : ∀ pointer row, model.revList pointer = some row ↔ ∃ node, model.list[row]? = some node ∧ node.pointer = pointer

omit [DecidableEq α] in
theorem structured_empty : Structured (empty : CListItemModel α) :=
  ⟨List.nodup_nil, List.nodup_nil, fun id node => by simp [empty], fun pointer row => by simp [empty]⟩

theorem Structured.append_node {model : CListItemModel α} (structured : Structured model) {node : SListNode α}
    (newId : node.id ∉ model.list.map SListNode.id) (newPointer : node.pointer ∉ model.list.map SListNode.pointer) :
    Structured (append_node model node) where
  ids := by
    simp only [ListItemModel.append_node, List.map_append, List.map_cons, List.map_nil]
    exact List.nodup_append.mpr ⟨structured.ids, by simp, fun id member other last => by
      rw [List.mem_singleton.mp last]
      rintro rfl
      exact newId member⟩
  pointers := by
    simp only [ListItemModel.append_node, List.map_append, List.map_cons, List.map_nil]
    exact List.nodup_append.mpr ⟨structured.pointers, by simp, fun pointer member other last => by
      rw [List.mem_singleton.mp last]
      rintro rfl
      exact newPointer member⟩
  map id other := by
    simp only [ListItemModel.append_node, List.mem_append, List.mem_singleton]
    by_cases here : id = node.id
    · subst here
      rw [Function.update_self, Option.some.injEq]
      constructor
      · rintro rfl
        exact ⟨.inr rfl, rfl⟩
      · rintro ⟨old | new, same⟩
        · exact absurd (List.mem_map.mpr ⟨other, old, same⟩) newId
        · exact new.symm
    · rw [Function.update_of_ne here, structured.map]
      constructor
      · rintro ⟨member, same⟩
        exact ⟨.inl member, same⟩
      · rintro ⟨old | rfl, same⟩
        · exact ⟨old, same⟩
        · exact absurd same.symm here
  rows pointer row := by
    simp only [ListItemModel.append_node]
    by_cases here : pointer = node.pointer
    · subst here
      rw [Function.update_self, Option.some.injEq]
      constructor
      · rintro rfl
        exact ⟨node, by simp, rfl⟩
      · rintro ⟨other, found, same⟩
        rw [List.getElem?_append] at found
        split_ifs at found with inside
        · exact absurd (List.mem_map.mpr ⟨other, List.mem_of_getElem? found, same⟩) newPointer
        · have zero : row - model.list.length = 0 := by
            have bound := (List.getElem?_eq_some_iff.mp found).1
            simp at bound
            omega
          omega
    · rw [Function.update_of_ne here, structured.rows]
      constructor
      · rintro ⟨other, found, same⟩
        exact ⟨other, by rw [List.getElem?_append_left (List.getElem?_eq_some_iff.mp found).1]; exact found, same⟩
      · rintro ⟨other, found, same⟩
        rw [List.getElem?_append] at found
        split_ifs at found with inside
        · exact ⟨other, found, same⟩
        · have last := List.mem_of_getElem? found
          rw [List.mem_singleton.mp last] at same
          exact absurd same.symm here

theorem Structured.append_nodes {new : List (SListNode α)} : ∀ {model : CListItemModel α}, Structured model →
    (model.list.map SListNode.id ++ new.map SListNode.id).Nodup → (model.list.map SListNode.pointer ++ new.map SListNode.pointer).Nodup →
    Structured (new.foldl ListItemModel.append_node model) ∧ (new.foldl ListItemModel.append_node model).list = model.list ++ new := by
  induction new with
  | nil =>
    intro model structured _ _
    exact ⟨structured, (List.append_nil _).symm⟩
  | cons node rest ih =>
    intro model structured ids pointers
    have newId : node.id ∉ model.list.map SListNode.id :=
      fun member => (List.nodup_append.mp ids).2.2 node.id member node.id List.mem_cons_self rfl
    have newPointer : node.pointer ∉ model.list.map SListNode.pointer :=
      fun member => (List.nodup_append.mp pointers).2.2 node.pointer member node.pointer List.mem_cons_self rfl
    have one := structured.append_node newId newPointer
    have below := ih one (by simpa [ListItemModel.append_node] using ids) (by simpa [ListItemModel.append_node] using pointers)
    refine ⟨below.1, ?_⟩
    rw [List.foldl_cons, below.2]
    simp [ListItemModel.append_node]

omit [DecidableEq α] in
theorem renumber_of_not_mem {pointer : Nat} (absent : pointer ∉ nodes.map SListNode.pointer) (first : Nat)
    (rows : Nat → Option Nat) : renumber first nodes rows pointer = rows pointer := by
  induction nodes generalizing first rows with
  | nil => rfl
  | cons node rest ih =>
    rw [List.map_cons, List.mem_cons, not_or] at absent
    rw [renumber, ih absent.2, Function.update_of_ne absent.1]

omit [DecidableEq α] in
theorem renumber_row (distinct : (nodes.map SListNode.pointer).Nodup) {row : Nat} {node : SListNode α}
    (found : nodes[row]? = some node) (first : Nat) (rows : Nat → Option Nat) :
    renumber first nodes rows node.pointer = some (first + row) := by
  induction nodes generalizing first rows row with
  | nil => cases found
  | cons head rest ih =>
    rw [List.map_cons, List.nodup_cons] at distinct
    cases row with
    | zero =>
      cases found
      rw [renumber, renumber_of_not_mem distinct.1, Function.update_self]
      rfl
    | succ row =>
      rw [renumber, ih distinct.2 found]
      congr 1
      omega

omit [DecidableEq α] in
theorem structured_renumber {model : CListItemModel α} (ids : (model.list.map SListNode.id).Nodup)
    (pointers : (model.list.map SListNode.pointer).Nodup)
    (map : ∀ id node, model.map id = some node ↔ node ∈ model.list ∧ node.id = id)
    (stale : ∀ pointer, pointer ∉ model.list.map SListNode.pointer → model.revList pointer = none) :
    Structured { model with revList := renumber 0 model.list model.revList } where
  ids := ids
  pointers := pointers
  map := map
  rows pointer row := by
    by_cases there : pointer ∈ model.list.map SListNode.pointer
    · obtain ⟨node, member, rfl⟩ := List.mem_map.mp there
      obtain ⟨place, found⟩ := List.mem_iff_getElem?.mp member
      have number := renumber_row pointers found 0 model.revList
      rw [Nat.zero_add] at number
      change renumber 0 model.list model.revList node.pointer = some row ↔ _
      rw [number, Option.some.injEq]
      constructor
      · rintro rfl
        exact ⟨node, found, rfl⟩
      · rintro ⟨other, also, same⟩
        have inside : place < (model.list.map SListNode.pointer).length := by
          rw [List.length_map]
          exact (List.getElem?_eq_some_iff.mp found).1
        apply (List.getElem?_inj inside pointers).mp
        rw [List.getElem?_map, List.getElem?_map, found, also, Option.map_some, Option.map_some, same]
    · change renumber 0 model.list model.revList pointer = some row ↔ _
      rw [renumber_of_not_mem there, stale pointer there]
      constructor
      · intro impossible
        cases impossible
      · rintro ⟨node, found, rfl⟩
        exact absurd (List.mem_map.mpr ⟨node, List.mem_of_getElem? found, rfl⟩) there

/-! ## Syncing -/

/-- The new nodes, and what is left of the map. -/
structure Sorted (live : List Nat) (entries : List α) (old : α → Option (SListNode α))
    (sorted : List (SListNode α) × (α → Option (SListNode α))) : Prop where
  ids : sorted.1.map SListNode.id = entries.filter (fun id => (old id).isNone)
  pointers : (sorted.1.map SListNode.pointer).Nodup
  fresh : ∀ node ∈ sorted.1, node.pointer ∉ live
  taken : ∀ id ∈ entries, sorted.2 id = none
  left : ∀ id, id ∉ entries → sorted.2 id = old id

theorem sort_entries_sorted (allocator : Allocator) {entries : List α} (distinct : entries.Nodup) (live : List Nat)
    (old : α → Option (SListNode α)) : Sorted live entries old (sort_entries allocator live entries old) := by
  induction entries generalizing live old with
  | nil => exact ⟨rfl, List.nodup_nil, by simp [sort_entries], by simp, fun id _ => rfl⟩
  | cons id rest ih =>
    obtain ⟨once, distinct⟩ := List.nodup_cons.mp distinct
    cases there : old id with
    | none =>
      let node : SListNode α := ⟨id, allocator.next live⟩
      have below := ih distinct (node.pointer :: live) old
      have unfolded : sort_entries allocator live (id :: rest) old =
          (node :: (sort_entries allocator (node.pointer :: live) rest old).1,
            (sort_entries allocator (node.pointer :: live) rest old).2) := by
        rw [sort_entries, there]
      rw [unfolded]
      refine ⟨?_, ?_, ?_, ?_, ?_⟩
      · rw [List.map_cons, below.ids, List.filter_cons_of_pos (by rw [there]; rfl)]
      · rw [List.map_cons, List.nodup_cons]
        refine ⟨fun member => ?_, below.pointers⟩
        obtain ⟨other, among, same⟩ := List.mem_map.mp member
        exact below.fresh other among (by rw [same]; exact List.mem_cons_self)
      · intro other member
        rcases List.mem_cons.mp member with rfl | later
        · exact allocator.unused live
        · exact fun among => below.fresh other later (List.mem_cons_of_mem _ among)
      · intro other member
        by_cases later : other ∈ rest
        · exact below.taken other later
        · have here : other = id := (List.mem_cons.mp member).resolve_right later
          rw [below.left other later, here, there]
      · exact fun other absent => below.left other (fun member => absent (List.mem_cons_of_mem _ member))
    | some node =>
      have below := ih distinct live (Function.update old id none)
      have unfolded : sort_entries allocator live (id :: rest) old =
          sort_entries allocator live rest (Function.update old id none) := by
        rw [sort_entries, there]
      rw [unfolded]
      refine ⟨?_, below.pointers, below.fresh, ?_, ?_⟩
      · rw [below.ids, List.filter_cons_of_neg (by rw [there]; simp)]
        apply List.filter_congr
        intro other member
        rw [Function.update_of_ne]
        rintro rfl
        exact once member
      · intro other member
        by_cases later : other ∈ rest
        · exact below.taken other later
        · have here : other = id := (List.mem_cons.mp member).resolve_right later
          rw [below.left other later, here, Function.update_self]
      · intro other absent
        rw [List.mem_cons, not_or] at absent
        rw [below.left other absent.2, Function.update_of_ne absent.1]

section
variable {model : CListItemModel α} {old : α → Option (SListNode α)} {last : Removal α}

theorem Swept.map_kept (swept : Swept old model.list.length model.list.length ⟨model, 0, []⟩ last) (structured : Structured model)
    (id : α) (node : SListNode α) : last.model.map id = some node ↔ node ∈ last.model.list ∧ node.id = id := by
  have list := swept.list
  have gone := swept.gone
  have kept := swept.kept
  simp only [List.take_length, List.drop_length, List.append_nil] at list gone kept
  rw [list, List.mem_filter]
  by_cases dropped : (old id).isSome
  · by_cases listed : ∃ other ∈ model.list, other.id = id
    · obtain ⟨other, member, same⟩ := listed
      have none := gone other member (by rw [Dropped, same]; exact dropped)
      rw [same] at none
      rw [none]
      constructor
      · intro impossible
        cases impossible
      · rintro ⟨⟨-, stays⟩, here⟩
        rw [Dropped, here, dropped] at stays
        cases stays
    · rw [kept id (fun other member _ same => listed ⟨other, member, same⟩), structured.map]
      constructor
      · rintro ⟨member, same⟩
        exact absurd ⟨node, member, same⟩ listed
      · rintro ⟨⟨member, -⟩, same⟩
        exact absurd ⟨node, member, same⟩ listed
  · have stays : ∀ other ∈ model.list, Dropped old other = true → other.id ≠ id := by
      rintro other - isDropped rfl
      exact dropped isDropped
    rw [kept id stays, structured.map]
    constructor
    · rintro ⟨member, rfl⟩
      exact ⟨⟨member, by simpa [Dropped] using dropped⟩, rfl⟩
    · rintro ⟨⟨member, -⟩, same⟩
      exact ⟨member, same⟩

omit [DecidableEq α] in
theorem Swept.stale (swept : Swept old model.list.length model.list.length ⟨model, 0, []⟩ last) (structured : Structured model)
    (pointer : Nat) (absent : pointer ∉ last.model.list.map SListNode.pointer) : last.model.revList pointer = none := by
  have list := swept.list
  have rows := swept.rows
  simp only [List.take_length, List.drop_length, List.append_nil] at list rows
  rw [rows]
  by_cases dropped : pointer ∈ (model.list.filter (Dropped old)).map SListNode.pointer
  · obtain ⟨node, member, rfl⟩ := List.mem_map.mp dropped
    exact unlisted_of_mem member _
  · rw [unlisted_of_not_mem dropped]
    cases numbered : model.revList pointer with
    | none => rfl
    | some row =>
      obtain ⟨node, found, same⟩ := (structured.rows pointer row).mp numbered
      have member := List.mem_of_getElem? found
      cases fate : Dropped old node with
      | true => exact absurd (List.mem_map.mpr ⟨node, List.mem_filter.mpr ⟨member, fate⟩, same⟩) dropped
      | false =>
        rw [list] at absent
        exact absurd (List.mem_map.mpr ⟨node, List.mem_filter.mpr ⟨member, by rw [fate]; rfl⟩, same⟩) absent

theorem Swept.structured (swept : Swept old model.list.length model.list.length ⟨model, 0, []⟩ last) (structured : Structured model) :
    Structured (if 0 < last.removed then { last.model with revList := renumber 0 last.model.list last.model.revList } else last.model) := by
  have list := swept.list
  have rows := swept.rows
  have removed := swept.removed
  simp only [List.take_length, List.drop_length, List.append_nil, Nat.zero_add] at list rows removed
  have shorter : last.model.list.Sublist model.list := by
    rw [list]
    exact List.filter_sublist
  have ids := structured.ids.sublist (shorter.map _)
  have pointers := structured.pointers.sublist (shorter.map _)
  by_cases some : 0 < last.removed
  · rw [if_pos some]
    exact structured_renumber ids pointers (swept.map_kept structured) (swept.stale structured)
  · rw [if_neg some]
    have same : last.model.list = model.list := shorter.eq_of_length (by omega)
    have none : model.list.filter (Dropped old) = [] := by
      rw [same] at list
      rw [List.filter_eq_nil_iff]
      intro node member isDropped
      have stays := List.filter_eq_self.mp list.symm node member
      rw [isDropped] at stays
      cases stays
    refine ⟨ids, pointers, swept.map_kept structured, ?_⟩
    rw [rows, none, same]
    exact structured.rows

end

/-- What a view may rely on after the rows were made to show `entries`. -/
structure Synced (model : CListItemModel α) (entries : List α) (after : CListItemModel α × List Announcement) : Prop where
  structured : Structured after.1
  shown : ∀ id, id ∈ after.1.list.map SListNode.id ↔ id ∈ entries
  appended : ∃ new, after.1.list = model.list.filter (fun node => decide (node.id ∈ entries)) ++ new ∧
    new.map SListNode.id = entries.filter (fun id => decide (id ∉ model.list.map SListNode.id))
  replayed : after.2.foldl (replay after.1.list) model.list = after.1.list

section
variable {model : CListItemModel α} {entries : List α}

omit [DecidableEq α] in
theorem Structured.map_isNone (structured : Structured model) (id : α) : (model.map id).isNone ↔ id ∉ model.list.map SListNode.id := by
  constructor
  · intro none member
    obtain ⟨node, listed, same⟩ := List.mem_map.mp member
    rw [(structured.map id node).mpr ⟨listed, same⟩] at none
    cases none
  · intro absent
    cases found : model.map id with
    | none => rfl
    | some node =>
      obtain ⟨listed, same⟩ := (structured.map id node).mp found
      exact absurd (List.mem_map.mpr ⟨node, listed, same⟩) absent

theorem Sorted.dropped {live : List Nat} {sorted : List (SListNode α) × (α → Option (SListNode α))}
    (sort : Sorted live entries model.map sorted) (structured : Structured model) {node : SListNode α} (listed : node ∈ model.list) :
    (!Dropped sorted.2 node) = decide (node.id ∈ entries) := by
  by_cases wanted : node.id ∈ entries
  · simp [Dropped, sort.taken _ wanted, wanted]
  · simp [Dropped, sort.left _ wanted, wanted, (structured.map node.id node).mpr ⟨listed, rfl⟩]

omit [DecidableEq α] in
theorem replay_insert (rows new : List (SListNode α)) (some : rows.length < (rows ++ new).length) :
    replay (rows ++ new) rows (.insert rows.length ((rows ++ new).length - 1)) = rows ++ new := by
  have all : (rows ++ new).length - 1 + 1 - rows.length = new.length := by
    simp only [List.length_append] at some ⊢
    omega
  rw [replay, all, List.drop_left, List.take_length, List.take_length, List.drop_length, List.append_nil]

theorem Structured.sync (structured : Structured model) (allocator : Allocator) (distinct : entries.Nodup) :
    Synced model entries (sync allocator model entries) := by
  have sort := sort_entries_sorted allocator distinct (model.list.map SListNode.pointer) model.map
  set sorted := sort_entries allocator (model.list.map SListNode.pointer) entries model.map with isSorted
  have swept : Swept sorted.2 model.list.length model.list.length ⟨model, 0, []⟩
      (remove_loop sorted.2 model.list.length none ⟨model, 0, []⟩) :=
    remove_loop_swept sorted.2 model.list.length none ⟨model, 0, []⟩ (Nat.le_refl _) (Nat.le_refl _)
  set last := remove_loop sorted.2 model.list.length none ⟨model, 0, []⟩ with isLast
  set numbered := if 0 < last.removed then { last.model with revList := renumber 0 last.model.list last.model.revList } else last.model
    with isNumbered
  have agree : Structured numbered := swept.structured structured
  have list : numbered.list = model.list.filter (fun node => decide (node.id ∈ entries)) := by
    have left : numbered.list = last.model.list := by
      rw [isNumbered]
      split <;> rfl
    have rows := swept.list
    simp only [List.take_length, List.drop_length, List.append_nil] at rows
    rw [left, rows]
    exact List.filter_congr (fun node listed => sort.dropped structured listed)
  have newIds : sorted.1.map SListNode.id = entries.filter (fun id => decide (id ∉ model.list.map SListNode.id)) := by
    rw [sort.ids]
    apply List.filter_congr
    intro id _
    rw [Bool.eq_iff_iff, structured.map_isNone, decide_eq_true_iff]
  have kept : ∀ {node : SListNode α}, node ∈ numbered.list → node ∈ model.list := by
    intro node member
    rw [list] at member
    exact (List.mem_filter.mp member).1
  have ids : (numbered.list.map SListNode.id ++ sorted.1.map SListNode.id).Nodup := by
    rw [newIds]
    refine List.nodup_append.mpr ⟨agree.ids, distinct.filter _, ?_⟩
    rintro id member other new rfl
    obtain ⟨node, listed, rfl⟩ := List.mem_map.mp member
    exact of_decide_eq_true (List.mem_filter.mp new).2 (List.mem_map.mpr ⟨node, kept listed, rfl⟩)
  have pointers : (numbered.list.map SListNode.pointer ++ sorted.1.map SListNode.pointer).Nodup := by
    refine List.nodup_append.mpr ⟨agree.pointers, sort.pointers, ?_⟩
    rintro pointer member other new rfl
    obtain ⟨node, listed, rfl⟩ := List.mem_map.mp member
    obtain ⟨fresh, among, same⟩ := List.mem_map.mp new
    exact sort.fresh fresh among (List.mem_map.mpr ⟨node, kept listed, same.symm⟩)
  obtain ⟨all, rows⟩ := agree.append_nodes ids pointers
  obtain ⟨announced, isAnnounced, replays⟩ := swept.announced
  have before : last.model.list = numbered.list := by
    rw [isNumbered]
    split <;> rfl
  have result : ListItemModel.sync allocator model entries = (sorted.1.foldl ListItemModel.append_node numbered,
      if numbered.list.length < (sorted.1.foldl ListItemModel.append_node numbered).list.length then
        last.announced ++ [.insert numbered.list.length ((sorted.1.foldl ListItemModel.append_node numbered).list.length - 1)]
      else last.announced) := rfl
  rw [result]
  refine ⟨all, ?_, ⟨sorted.1, ?_, newIds⟩, ?_⟩
  · intro id
    change id ∈ (sorted.1.foldl ListItemModel.append_node numbered).list.map SListNode.id ↔ _
    rw [rows, List.map_append, List.mem_append, newIds, List.mem_filter, decide_eq_true_iff, list]
    constructor
    · rintro (old | new)
      · obtain ⟨node, member, rfl⟩ := List.mem_map.mp old
        exact of_decide_eq_true (List.mem_filter.mp member).2
      · exact new.1
    · intro wanted
      by_cases there : id ∈ model.list.map SListNode.id
      · obtain ⟨node, member, rfl⟩ := List.mem_map.mp there
        exact .inl (List.mem_map.mpr ⟨node, List.mem_filter.mpr ⟨member, decide_eq_true wanted⟩, rfl⟩)
      · exact .inr ⟨wanted, there⟩
  · change (sorted.1.foldl ListItemModel.append_node numbered).list = _
    rw [rows, list]
  · dsimp only
    rw [rows]
    have first : last.announced.foldl (replay (numbered.list ++ sorted.1)) model.list = numbered.list := by
      rw [isAnnounced, ← before]
      exact replays _
    by_cases some : numbered.list.length < (numbered.list ++ sorted.1).length
    · rw [if_pos some, List.foldl_append, first, List.foldl_cons, List.foldl_nil]
      exact replay_insert numbered.list sorted.1 some
    · rw [if_neg some, first]
      have none : sorted.1 = [] := by
        rw [List.length_append] at some
        exact List.eq_nil_of_length_eq_zero (by omega)
      rw [none, List.append_nil]

theorem Structured.clear (structured : Structured model) : Synced model [] (clear model) := by
  by_cases none : model.list.length = 0
  · have noRows := List.eq_nil_of_length_eq_zero none
    rw [ListItemModel.clear, if_pos none]
    exact ⟨structured, by simp [noRows], ⟨[], by simp [noRows], by simp⟩, rfl⟩
  · rw [ListItemModel.clear, if_neg none]
    refine ⟨structured_empty, by simp [empty], ⟨[], by simp [empty], by simp⟩, ?_⟩
    have all : model.list.length - 1 + 1 = model.list.length := by omega
    simp [replay, all, empty]

end

/-! ## Runs -/

inductive Call (α : Type u) where
  | sync (entries : List α)
  | clear

/-- The ids a call is to leave. -/
def Call.entries : Call α → List α
  | .sync entries => entries
  | .clear => []

def call (allocator : Allocator) (model : CListItemModel α) : Call α → CListItemModel α × List Announcement
  | .sync entries => sync allocator model entries
  | .clear => clear model

def step (allocator : Allocator) (model : CListItemModel α) (event : Call α) : Option (CListItemModel α) :=
  some (call allocator model event).1

/-- No id comes twice in the entries of a call. -/
def Distinct (_ : CListItemModel α) (event : Call α) : Prop := event.entries.Nodup

theorem Structured.call {model : CListItemModel α} (structured : Structured model) (allocator : Allocator) {event : Call α}
    (distinct : Distinct model event) : Synced model event.entries (call allocator model event) := by
  cases event with
  | sync entries => exact structured.sync allocator distinct
  | clear => exact structured.clear

/-- After every call the containers agree, the rows show the entries, and the view was
    told how to get there. -/
theorem lists_structured (allocator : Allocator) {model : CListItemModel α} (run : Run (step allocator) Distinct empty model) :
    Structured model ∧ ∀ event, Distinct model event → Synced model event.entries (call allocator model event) := by
  have structured : Structured model := by
    apply run.invariant Structured structured_empty
    intro model event later structured distinct moved
    cases moved
    exact (structured.call allocator distinct).structured
  exact ⟨structured, fun event distinct => structured.call allocator distinct⟩

end

/-- Memory beyond all that is in use. -/
def bumpAllocator : Allocator where
  next live := live.foldr max 0 + 1
  unused live := by
    have bounded : ∀ pointer ∈ live, pointer ≤ live.foldr max 0 := by
      induction live with
      | nil => simp
      | cons first rest ih =>
        intro pointer member
        rcases List.mem_cons.mp member with rfl | later
        · exact Nat.le_max_left _ _
        · exact Nat.le_trans (ih pointer later) (Nat.le_max_right _ _)
    intro member
    have := bounded _ member
    omega

/-- Rows are kept, dropped at two places, and appended. -/
theorem lists_structured_resynced :
    let before := (sync bumpAllocator empty [1, 2, 3, 4, 5]).1
    (sync bumpAllocator before [2, 5, 6]).1.list = [⟨2, 2⟩, ⟨5, 5⟩, ⟨6, 6⟩] ∧
    (sync bumpAllocator before [2, 5, 6]).2 = [.remove 2 3, .remove 0 0, .insert 2 2] ∧
    Synced before [2, 5, 6] (sync bumpAllocator before [2, 5, 6]) := by
  intro before
  have run : Run (step bumpAllocator) Distinct empty before :=
    .next .start (show Distinct _ (.sync [1, 2, 3, 4, 5]) from by unfold Distinct; decide) rfl
  have distinct : Distinct before (.sync [2, 5, 6]) := by unfold Distinct; decide
  exact ⟨by decide, by decide, (lists_structured bumpAllocator run).2 (.sync [2, 5, 6]) distinct⟩

end TaskExplorer.ListItemModel
