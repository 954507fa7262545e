import TaskExplorer.TreeItemModel

/-!
# Filling and syncing a tree

A list says which ids are shown and where. Where the nodes that stay agree with it,
filling puts every new node at its path.
-/

namespace TaskExplorer.TreeItemModel
open Forest OrderedMap

section
variable {α : Type} [LinearOrder α]

/-- The node at `parent` holds the nodes at `position`. -/
def Under (rows : Rows (STreeNode α)) (parent : Nat) (position : List α) : Prop :=
  (parent = root ∧ position = []) ∨
    ∃ place ∈ places STreeNode.id [] rows, place.2.ptr = parent ∧ position = place.1 ++ [place.2.id]

theorem Tidy.place_bounds {model : Model α} (tidy : Tidy model) {place : List α × STreeNode α} (member : place ∈ places STreeNode.id [] model.rows) :
    root < place.2.ptr ∧ place.2.ptr < model.next := by
  apply tidy.bounds
  rw [← places_nodes STreeNode.id model.rows []]
  exact List.mem_map_of_mem member

theorem Tidy.append_perm {model : Model α} (tidy : Tidy model) {parent : Nat} {position : List α} (under : Under model.rows parent position)
    (node : STreeNode α) :
    (places STreeNode.id [] (append parent node model.rows)).Perm ((position, node) :: places STreeNode.id [] model.rows) := by
  rw [append]
  rcases under with ⟨isRoot, rfl⟩ | ⟨place, member, isParent, rfl⟩
  · rw [if_pos isRoot, places_snoc]
    exact List.perm_append_singleton _ _
  · have notRoot : parent ≠ root := by
      rw [← isParent]
      exact (tidy.place_bounds member).1.ne'
    rw [if_neg notRoot]
    refine @hang_perm _ _ STreeNode.id (fun other => other.ptr == parent) _ _ _ member (beq_iff_eq.mpr isParent) ?_ node
    have apart := tidy.ptrs
    rw [← places_nodes STreeNode.id model.rows [], List.map_map] at apart
    refine (List.pairwise_map.mp apart).imp ?_
    intro one other differ isOne
    rw [← eq_of_beq isOne, beq_eq_false_iff_ne]
    exact differ.symm

omit [LinearOrder α] in
theorem append_numbered {rows : Rows (STreeNode α)} (numbered : rows.Numbered 0) (parent : Nat) (node : STreeNode α) :
    (append parent node rows).Numbered 0 := by
  rw [append]
  split_ifs
  · have last := numbered_snoc numbered node
    rw [Nat.zero_add] at last
    exact last
  · exact numbered_hang numbered _ _

omit [LinearOrder α] in
theorem append_linked {rows : Rows (STreeNode α)} (linked : Linked root rows) (node : STreeNode α) :
    Linked root (append node.parent node rows) := by
  rw [append]
  split_ifs with isRoot
  · exact linked_snoc linked isRoot _
  · exact linked_hang linked node

theorem Tidy.append_nodes {model : Model α} (tidy : Tidy model) {parent : Nat} {position : List α} (under : Under model.rows parent position)
    (node : STreeNode α) : (nodes (append parent node model.rows)).Perm (node :: nodes model.rows) := by
  have perm := (tidy.append_perm under node).map Prod.snd
  rw [places_nodes, List.map_cons, places_nodes] at perm
  exact perm

theorem Tidy.append {model : Model α} (tidy : Tidy model) {node : STreeNode α} {position : List α}
    (under : Under model.rows node.parent position) (newId : model.map.get node.id = none)
    (newPtr : ∀ other ∈ nodes model.rows, other.ptr ≠ node.ptr) {next : Nat} (grows : model.next ≤ next) (bounds : root < node.ptr ∧ node.ptr < next) :
    Tidy ⟨append node.parent node model.rows, model.map.insert node.id node.ptr, next⟩ := by
  have perm := tidy.append_nodes under node
  have unknown : ∀ other ∈ nodes model.rows, other.id ≠ node.id := by
    intro other member same
    have known := (tidy.mapped node.id other.ptr).mpr ⟨other, member, same, rfl⟩
    rw [newId] at known
    cases known
  refine ⟨append_numbered tidy.numbered _ _, append_linked tidy.linked _, ?_, ?_, ?_, ?_⟩
  · rw [(perm.map _).nodup_iff, List.map_cons, List.nodup_cons]
    refine ⟨?_, tidy.ids⟩
    rintro among
    obtain ⟨other, member, same⟩ := List.mem_map.mp among
    exact unknown other member same
  · rw [(perm.map _).nodup_iff, List.map_cons, List.nodup_cons]
    refine ⟨?_, tidy.ptrs⟩
    rintro among
    obtain ⟨other, member, same⟩ := List.mem_map.mp among
    exact newPtr other member same
  · intro id ptr
    rw [OrdMap.get_insert]
    split_ifs with isNode
    · constructor
      · rintro ⟨⟩
        exact ⟨node, perm.mem_iff.mpr List.mem_cons_self, isNode, rfl⟩
      · rintro ⟨other, member, rfl, rfl⟩
        rcases List.mem_cons.mp (perm.mem_iff.mp member) with rfl | older
        · rfl
        · exact absurd isNode.symm (unknown other older)
    · rw [tidy.mapped]
      constructor
      · rintro ⟨other, member, isId, isPtr⟩
        exact ⟨other, perm.mem_iff.mpr (List.mem_cons_of_mem _ member), isId, isPtr⟩
      · rintro ⟨other, member, rfl, isPtr⟩
        rcases List.mem_cons.mp (perm.mem_iff.mp member) with rfl | older
        · exact absurd rfl isNode
        · exact ⟨other, older, rfl, isPtr⟩
  · intro other member
    rcases List.mem_cons.mp (perm.mem_iff.mp member) with rfl | older
    · exact bounds
    · exact ⟨(tidy.bounds other older).1, (tidy.bounds other older).2.trans_le grows⟩

/-! ## Filling -/

def Shown (entries : List (Entry α)) (id : α) : Prop := ∃ entry ∈ entries, entry.id = id

/-- All nodes are where `pos` has them, the shown ones are not virtual and the others are,
with something below them, or else on the way to `waiting`. -/
structure Growing (entries : List (Entry α)) (pos : α → List α) (pinned : α → Bool) (waiting : List α) (model : Model α) : Prop where
  tidy : Tidy model
  position : ∀ place ∈ places STreeNode.id [] model.rows, place.1 = pos place.2.id
  real : ∀ place ∈ places STreeNode.id [] model.rows, place.2.isVirtual = false → place.2.path = place.1 ∧ Shown entries place.2.id
  virtual : ∀ place ∈ places STreeNode.id [] model.rows, place.2.isVirtual = true → place.2.path = [] ∧ ¬ Shown entries place.2.id
  reason : ∀ place ∈ places STreeNode.id [] model.rows, place.2.isVirtual = true → pinned place.2.id = true ∨
    (∃ below ∈ places STreeNode.id [] model.rows, below.2.isVirtual = false ∧ place.1 ++ [place.2.id] <+: below.1) ∨
    place.1 ++ [place.2.id] <+: waiting

/-- Nodes come, and none goes. -/
structure Grows (entries : List (Entry α)) (added : List (STreeNode α)) (model later : Model α) : Prop where
  kept : ∀ place ∈ places STreeNode.id [] model.rows, place ∈ places STreeNode.id [] later.rows
  next : model.next ≤ later.next
  others : ∀ node ∈ nodes later.rows, node ∈ nodes model.rows ∨ (¬ Shown entries node.id ∧ model.next ≤ node.ptr) ∨
    ∃ fresh ∈ added, node.id = fresh.id ∧ node.ptr = fresh.ptr

variable {entries : List (Entry α)} {pos : α → List α} {pinned : α → Bool} {waiting : List α} {model : Model α}

theorem Grows.refl (model : Model α) : Grows entries [] model model := ⟨fun _ member => member, le_rfl, fun _ member => .inl member⟩

theorem Grows.trans {first second : List (STreeNode α)} {middle later : Model α} (before : Grows entries first model middle)
    (after : Grows entries second middle later) : Grows entries (first ++ second) model later := by
  refine ⟨fun place member => after.kept place (before.kept place member), before.next.trans after.next, ?_⟩
  intro node member
  rcases after.others node member with older | ⟨hidden, high⟩ | ⟨fresh, among, same⟩
  · rcases before.others node older with oldest | hidden | ⟨fresh, among, same⟩
    · exact .inl oldest
    · exact .inr (.inl hidden)
    · exact .inr (.inr ⟨fresh, List.mem_append_left _ among, same⟩)
  · exact .inr (.inl ⟨hidden, before.next.trans high⟩)
  · exact .inr (.inr ⟨fresh, List.mem_append_right _ among, same⟩)

theorem Tidy.known (tidy : Tidy model) {place : List α × STreeNode α} (there : place ∈ places STreeNode.id [] model.rows) {id : α}
    (isId : place.2.id = id) : model.map.get id ≠ none := by
  have member : place.2 ∈ nodes model.rows := by
    rw [← places_nodes STreeNode.id model.rows []]
    exact List.mem_map_of_mem there
  rw [(tidy.mapped id place.2.ptr).mpr ⟨place.2, member, isId, rfl⟩]
  exact Option.some_ne_none _

theorem Tidy.place (tidy : Tidy model) {id : α} (found : model.map.get id ≠ none) : ∃ place ∈ places STreeNode.id [] model.rows, place.2.id = id := by
  obtain ⟨ptr, isPtr⟩ := Option.ne_none_iff_exists'.mp found
  obtain ⟨node, member, isId, -⟩ := (tidy.mapped id ptr).mp isPtr
  rw [← places_nodes STreeNode.id model.rows []] at member
  obtain ⟨place, there, rfl⟩ := List.mem_map.mp member
  exact ⟨place, there, isId⟩

theorem Grows.known {later : Model α} {added : List (STreeNode α)} (grows : Grows entries added model later) (before : Tidy model) (after : Tidy later)
    {id : α} (found : model.map.get id ≠ none) : later.map.get id ≠ none := by
  obtain ⟨place, there, isId⟩ := before.place found
  exact after.known (grows.kept place there) isId

theorem Under.grows {later : Model α} {added : List (STreeNode α)} (grows : Grows entries added model later) {parent : Nat} {position : List α}
    (under : Under model.rows parent position) : Under later.rows parent position := by
  rcases under with top | ⟨place, member, rest⟩
  · exact .inl top
  · exact .inr ⟨place, grows.kept place member, rest⟩

theorem Growing.append (growing : Growing entries pos pinned waiting model) {node : STreeNode α}
    (under : Under model.rows node.parent (pos node.id)) (newId : model.map.get node.id = none)
    (newPtr : ∀ other ∈ nodes model.rows, other.ptr ≠ node.ptr) {next : Nat} (grows : model.next ≤ next) (bounds : root < node.ptr ∧ node.ptr < next)
    (real : node.isVirtual = false → node.path = pos node.id ∧ Shown entries node.id)
    (virtual : node.isVirtual = true → (node.path = [] ∧ ¬ Shown entries node.id) ∧ pos node.id ++ [node.id] <+: waiting) :
    Growing entries pos pinned waiting ⟨append node.parent node model.rows, model.map.insert node.id node.ptr, next⟩ := by
  have perm := growing.tidy.append_perm under node
  have split : ∀ {holds : List α × STreeNode α → Prop}, holds (pos node.id, node) → (∀ place ∈ places STreeNode.id [] model.rows, holds place) →
      ∀ place ∈ places STreeNode.id [] (TreeItemModel.append node.parent node model.rows), holds place := by
    intro holds first others place member
    rcases List.mem_cons.mp (perm.mem_iff.mp member) with rfl | older
    · exact first
    · exact others place older
  refine ⟨growing.tidy.append under newId newPtr grows bounds, split rfl growing.position, split real growing.real,
    split (fun isVirtual => (virtual isVirtual).1) growing.virtual, split (fun isVirtual => .inr (.inr (virtual isVirtual).2)) ?_⟩
  intro place member isVirtual
  rcases growing.reason place member isVirtual with isPinned | ⟨below, there, rest⟩ | onTheWay
  · exact .inl isPinned
  · exact .inr (.inl ⟨below, perm.mem_iff.mpr (List.mem_cons_of_mem _ there), rest⟩)
  · exact .inr (.inr onTheWay)

theorem Growing.map_none (growing : Growing entries pos pinned waiting model) {id : α} :
    model.map.get id = none ↔ ∀ node ∈ nodes model.rows, node.id ≠ id := by
  constructor
  · intro unknown node member same
    rw [(growing.tidy.mapped id node.ptr).mpr ⟨node, member, same, rfl⟩] at unknown
    cases unknown
  · intro absent
    cases found : model.map.get id with
    | none => rfl
    | some ptr =>
      obtain ⟨node, member, same, -⟩ := (growing.tidy.mapped id ptr).mp found
      exact absurd same (absent node member)

theorem Growing.branch (growing : Growing entries pos pinned waiting model) {parent : Nat} {step : α} (under : Under model.rows parent (pos step))
    (onTheWay : pos step ++ [step] <+: waiting) (known : Shown entries step → model.map.get step ≠ none) (start : root < model.next) :
    Growing entries pos pinned waiting (branch model parent step).1 ∧
      Under (branch model parent step).1.rows (branch model parent step).2 (pos step ++ [step]) ∧
      Grows entries [] model (branch model parent step).1 := by
  rw [TreeItemModel.branch]
  cases found : model.map.get step with
  | some ptr =>
    obtain ⟨node, member, rfl, isPtr⟩ := (growing.tidy.mapped step ptr).mp found
    rw [← places_nodes STreeNode.id model.rows []] at member
    obtain ⟨place, there, rfl⟩ := List.mem_map.mp member
    refine ⟨growing, .inr ⟨place, there, isPtr, ?_⟩, Grows.refl model⟩
    rw [growing.position place there]
  | none =>
    have hidden : ¬ Shown entries step := fun shown => known shown found
    have newPtr : ∀ other ∈ nodes model.rows, other.ptr ≠ model.next := fun other member => (growing.tidy.bounds other member).2.ne
    have grown := @Growing.append _ _ _ _ _ _ _ growing ⟨model.next, step, parent, [], true⟩ under found newPtr _ (Nat.le_succ _)
      ⟨start, Nat.lt_succ_self _⟩ (fun real => by cases real) (fun _ => ⟨⟨rfl, hidden⟩, onTheWay⟩)
    have perm := growing.tidy.append_perm under ⟨model.next, step, parent, [], true⟩
    refine ⟨grown, .inr ⟨_, perm.mem_iff.mpr List.mem_cons_self, rfl, rfl⟩, ⟨?_, Nat.le_succ _, ?_⟩⟩
    · exact fun place member => perm.mem_iff.mpr (List.mem_cons_of_mem _ member)
    · intro node member
      have nodePerm := growing.tidy.append_nodes under ⟨model.next, step, parent, [], true⟩
      rcases List.mem_cons.mp (nodePerm.mem_iff.mp member) with rfl | older
      · exact .inr (.inl ⟨hidden, le_rfl⟩)
      · exact .inl older

/-- New nodes that are not in the model yet. -/
structure Fresh (entries : List (Entry α)) (pos : α → List α) (model : Model α) (fresh : List (STreeNode α)) : Prop where
  real : ∀ node ∈ fresh, node.isVirtual = false ∧ node.path = pos node.id ∧ Shown entries node.id
  apart : ∀ node ∈ fresh, ∀ other ∈ nodes model.rows, other.id ≠ node.id ∧ other.ptr ≠ node.ptr
  bounds : ∀ node ∈ fresh, root < node.ptr ∧ node.ptr < model.next
  once : fresh.Pairwise (fun node other => node.id ≠ other.id ∧ node.ptr ≠ other.ptr)

theorem Fresh.left {first second : List (STreeNode α)} (fresh : Fresh entries pos model (first ++ second)) : Fresh entries pos model first where
  real node member := fresh.real node (List.mem_append_left _ member)
  apart node member := fresh.apart node (List.mem_append_left _ member)
  bounds node member := fresh.bounds node (List.mem_append_left _ member)
  once := (List.pairwise_append.mp fresh.once).1

theorem Fresh.grows {first second : List (STreeNode α)} {later : Model α} (fresh : Fresh entries pos model (first ++ second))
    (grows : Grows entries first model later) : Fresh entries pos later second where
  real node member := fresh.real node (List.mem_append_right _ member)
  apart node member other among := by
    have among' := List.mem_append_right first member
    rcases grows.others other among with older | ⟨hidden, high⟩ | ⟨added, isAdded, sameId, samePtr⟩
    · exact fresh.apart node among' other older
    · refine ⟨?_, ((fresh.bounds node among').2.trans_le high).ne'⟩
      rintro same
      exact hidden (same ▸ (fresh.real node among').2.2)
    · rw [sameId, samePtr]
      exact (List.pairwise_append.mp fresh.once).2.2 added isAdded node member
  bounds node member := by
    have bounds := fresh.bounds node (List.mem_append_right _ member)
    exact ⟨bounds.1, bounds.2.trans_le grows.next⟩
  once := (List.pairwise_append.mp fresh.once).2.1

/-- The nodes are in the model, at their position. -/
def At (model : Model α) (position : List α) (fresh : List (STreeNode α)) : Prop :=
  ∀ node ∈ fresh, ∃ place ∈ places STreeNode.id [] model.rows, place.1 = position ∧ place.2.id = node.id ∧ place.2.isVirtual = false

theorem Growing.put (growing : Growing entries pos pinned waiting model) {parent : Nat} (under : Under model.rows parent waiting)
    {fresh : List (STreeNode α)} (isFresh : Fresh entries pos model fresh) (here : ∀ node ∈ fresh, node.path = waiting) :
    Growing entries pos pinned waiting (fresh.foldl (put_node parent) model) ∧
      Grows entries fresh model (fresh.foldl (put_node parent) model) ∧ At (fresh.foldl (put_node parent) model) waiting fresh := by
  induction fresh generalizing model with
  | nil => exact ⟨growing, Grows.refl model, by simp [At]⟩
  | cons node rest ih =>
    obtain ⟨isReal, isPath, shown⟩ := isFresh.real node List.mem_cons_self
    have isPos : pos node.id = waiting := isPath.symm.trans (here node List.mem_cons_self)
    have apart := isFresh.apart node List.mem_cons_self
    have perm := growing.tidy.append_perm under { node with parent := parent }
    have grown : Growing entries pos pinned waiting (put_node parent model node) :=
      @Growing.append _ _ _ _ _ _ _ growing { node with parent := parent } (isPos ▸ under)
        (growing.map_none.mpr (fun other among => (apart other among).1)) (fun other among => (apart other among).2) _ le_rfl
        (isFresh.bounds node List.mem_cons_self) (fun _ => ⟨isPath, shown⟩) (fun isVirtual => by simp [isReal] at isVirtual)
    have grows : Grows entries [node] model (put_node parent model node) := by
      refine ⟨fun place member => perm.mem_iff.mpr (List.mem_cons_of_mem _ member), le_rfl, ?_⟩
      intro other member
      rcases List.mem_cons.mp ((growing.tidy.append_nodes under { node with parent := parent }).mem_iff.mp member) with rfl | older
      · exact .inr (.inr ⟨node, List.mem_singleton_self _, rfl, rfl⟩)
      · exact .inl older
    obtain ⟨after, growsAfter, atAfter⟩ := ih grown (under.grows grows) (@Fresh.grows _ _ _ _ _ [node] rest _ isFresh grows)
      (fun other among => here other (List.mem_cons_of_mem _ among))
    refine ⟨after, grows.trans growsAfter, ?_⟩
    intro other member
    rcases List.mem_cons.mp member with rfl | among
    · exact ⟨_, growsAfter.kept _ (perm.mem_iff.mpr List.mem_cons_self), rfl, rfl, isReal⟩
    · exact atAfter other among

theorem Growing.fill (growing : Growing entries pos pinned waiting model) {parent : Nat} {upper rest : List α}
    (under : Under model.rows parent upper) (isWaiting : waiting = upper ++ rest)
    (steps : ∀ before step after, waiting = before ++ step :: after → pos step = before ∧ (Shown entries step → model.map.get step ≠ none))
    {fresh : List (STreeNode α)} (isFresh : Fresh entries pos model fresh) (here : ∀ node ∈ fresh, node.path = waiting) (start : root < model.next) :
    Growing entries pos pinned waiting (fill model parent fresh rest) ∧
      Grows entries fresh model (fill model parent fresh rest) ∧ At (fill model parent fresh rest) waiting fresh := by
  induction rest generalizing model parent upper with
  | nil =>
    rw [List.append_nil] at isWaiting
    exact growing.put (isWaiting ▸ under) isFresh here
  | cons step rest ih =>
    obtain ⟨isUpper, known⟩ := steps upper step rest isWaiting
    have isWaiting' : waiting = (upper ++ [step]) ++ rest := by rw [isWaiting, List.append_assoc, List.singleton_append]
    obtain ⟨grown, underStep, grows⟩ := @Growing.branch _ _ _ _ _ _ _ growing parent step (isUpper ▸ under)
      (by rw [isUpper, isWaiting']; exact List.prefix_append _ _) known start
    rw [isUpper] at underStep
    have stepsAfter : ∀ before other after, waiting = before ++ other :: after →
        pos other = before ∧ (Shown entries other → (TreeItemModel.branch model parent step).1.map.get other ≠ none) := by
      intro before other after isOther
      obtain ⟨isBefore, isKnown⟩ := steps before other after isOther
      exact ⟨isBefore, fun shown => grows.known growing.tidy grown.tidy (isKnown shown)⟩
    obtain ⟨after, growsAfter, atAfter⟩ := ih grown underStep isWaiting' stepsAfter (@Fresh.grows _ _ _ _ _ [] fresh _ isFresh grows)
      (start.trans_le grows.next)
    exact ⟨after, grows.trans growsAfter, atAfter⟩

theorem Growing.settled (growing : Growing entries pos pinned waiting model) {fresh : List (STreeNode α)} (isAt : At model waiting fresh)
    (some : fresh ≠ []) : Growing entries pos pinned [] model := by
  refine ⟨growing.tidy, growing.position, growing.real, growing.virtual, ?_⟩
  intro place member isVirtual
  rcases growing.reason place member isVirtual with isPinned | below | onTheWay
  · exact .inl isPinned
  · exact .inr (.inl below)
  · obtain ⟨node, first⟩ := List.exists_mem_of_ne_nil fresh some
    obtain ⟨below, there, isWaiting, -, isReal⟩ := isAt node first
    exact .inr (.inl ⟨below, there, isReal, isWaiting ▸ onTheWay⟩)

theorem Growing.expect (growing : Growing entries pos pinned [] model) (waiting : List α) : Growing entries pos pinned waiting model := by
  refine ⟨growing.tidy, growing.position, growing.real, growing.virtual, ?_⟩
  intro place member isVirtual
  rcases growing.reason place member isVirtual with isPinned | below | onTheWay
  · exact .inl isPinned
  · exact .inr (.inl below)
  · simp at onTheWay

/-- A list that says of every id where it is. -/
structure Coherent (entries : List (Entry α)) (pos : α → List α) (top : α → Bool) : Prop where
  own : ∀ entry ∈ entries, entry.path = pos entry.id
  steps : ∀ entry ∈ entries, ∀ upper step lower, entry.path = upper ++ step :: lower → pos step = upper
  once : (entries.map Entry.id).Nodup
  test : ∀ entry ∈ entries, ∀ path, entry.test path = true ↔ path = entry.path
  top : ∀ id, top id = true → pos id = [] ∧ ¬ Shown entries id

theorem prefix_lt (upper lower : List α) (step : α) : upper < upper ++ step :: lower := by
  have longer : upper ++ [] < upper ++ step :: lower := List.append_left_lt (List.nil_lt_cons step lower)
  rwa [List.append_nil] at longer

theorem Growing.fill_all {top : α → Bool} (coherent : Coherent entries pos top) (growing : Growing entries pos pinned [] model)
    {pairs : List (List α × List (STreeNode α))} (sorted : Sorted pairs)
    (each : ∀ pair ∈ pairs, pair.2 ≠ [] ∧ ∀ node ∈ pair.2, node.path = pair.1) (fresh : Fresh entries pos model (pairs.flatMap Prod.snd))
    (known : ∀ entry ∈ entries, model.map.get entry.id ≠ none ∨ ∃ pair ∈ pairs, ∃ node ∈ pair.2, node.id = entry.id) (start : root < model.next) :
    Growing entries pos pinned [] (pairs.foldl (fun model pair => TreeItemModel.fill model root pair.2 pair.1) model) ∧
      root < (pairs.foldl (fun model pair => TreeItemModel.fill model root pair.2 pair.1) model).next ∧
      ∀ entry ∈ entries, (pairs.foldl (fun model pair => TreeItemModel.fill model root pair.2 pair.1) model).map.get entry.id ≠ none := by
  induction pairs generalizing model with
  | nil => exact ⟨growing, start, fun entry among => (known entry among).resolve_right (by simp)⟩
  | cons pair rest ih =>
    obtain ⟨some, here⟩ := each pair List.mem_cons_self
    obtain ⟨before, sortedRest⟩ := List.pairwise_cons.mp sorted
    rw [List.flatMap_cons] at fresh
    have atPath : ∀ {entry : Entry α}, entry ∈ entries → ∀ {other}, other ∈ pair :: rest → ∀ node ∈ other.2, node.id = entry.id →
        entry.path = other.1 := by
      intro entry among other isPair node member same
      have isReal := fresh.real node (by
        rw [← List.flatMap_cons]
        exact List.mem_flatMap.mpr ⟨other, isPair, member⟩)
      rw [coherent.own entry among, ← same, ← isReal.2.1]
      exact (each other isPair).2 node member
    have steps : ∀ upper step lower, pair.1 = upper ++ step :: lower → pos step = upper ∧ (Shown entries step → model.map.get step ≠ none) := by
      intro upper step lower isPath
      obtain ⟨node, first⟩ := List.exists_mem_of_ne_nil pair.2 some
      obtain ⟨entry, among, same⟩ := (fresh.left.real node first).2.2
      have isUpper : pos step = upper :=
        coherent.steps entry among upper step lower ((atPath among List.mem_cons_self node first same.symm).trans isPath)
      refine ⟨isUpper, ?_⟩
      rintro ⟨shown, isEntry, rfl⟩
      rcases known shown isEntry with found | ⟨other, isOther, inner, member, sameId⟩
      · exact found
      · have isKey : other.1 = upper := by rw [← atPath isEntry isOther inner member sameId, coherent.own shown isEntry, isUpper]
        have smaller : other.1 < pair.1 := by
          rw [isKey, isPath]
          exact prefix_lt _ _ _
        rcases List.mem_cons.mp isOther with rfl | later
        · exact absurd smaller (lt_irrefl _)
        · exact absurd smaller (lt_asymm (before other later))
    obtain ⟨grown, grows, isAt⟩ := (growing.expect pair.1).fill (.inl ⟨rfl, rfl⟩) rfl steps fresh.left here start
    refine ih (grown.settled isAt some) sortedRest (fun other later => each other (List.mem_cons_of_mem _ later)) (fresh.grows grows) ?_
      (start.trans_le grows.next)
    intro entry among
    rcases known entry among with found | ⟨other, isOther, inner, member, sameId⟩
    · exact .inl (grows.known growing.tidy grown.tidy found)
    · rcases List.mem_cons.mp isOther with rfl | later
      · left
        obtain ⟨place, there, -, isId, -⟩ := isAt inner member
        exact grown.tidy.known there (isId.trans sameId)
      · exact .inr ⟨other, later, inner, member, sameId⟩

/-! ## Going through the list -/

/-- The entry has a node, and the path of it is still right. -/
def Matched (rows : Rows (STreeNode α)) (entry : Entry α) : Prop := ∃ node ∈ nodes rows, node.id = entry.id ∧ entry.test node.path = true

def Loop.flat (loop : Loop α) : List (STreeNode α) := loop.fresh.entries.flatMap Prod.snd

/-- After the entries `done`, `Old` is without those that have their node, and `New` has the others. -/
structure Taken (model : Model α) (done : List (Entry α)) (loop : Loop α) : Prop where
  matched : ∀ entry ∈ done, Matched model.rows entry → value loop.old entry.id = none
  others : ∀ id, (∀ entry ∈ done, entry.id = id → ¬ Matched model.rows entry) → value loop.old id = model.map.get id
  keys : ∀ id, loop.old.get id = none → model.map.get id = none
  pairs : ∀ path fresh, loop.fresh.get path = some fresh → fresh ≠ [] ∧ ∀ node ∈ fresh, node.path = path
  made : ∀ node ∈ loop.flat, (node.isVirtual = false ∧ ∃ entry ∈ done, ¬ Matched model.rows entry ∧ entry.id = node.id ∧ node.path = entry.path) ∧
    model.next ≤ node.ptr ∧ node.ptr < loop.next
  all : ∀ entry ∈ done, ¬ Matched model.rows entry → ∃ node ∈ loop.flat, node.id = entry.id
  once : loop.flat.Pairwise (fun node other => node.id ≠ other.id ∧ node.ptr ≠ other.ptr)
  next : model.next ≤ loop.next

theorem Tidy.node_at (tidy : Tidy model) {node : STreeNode α} (member : node ∈ nodes model.rows) : node_at model.rows node.ptr = some node := by
  rw [TreeItemModel.node_at]
  cases found : (nodes model.rows).find? (fun other => other.ptr == node.ptr) with
  | none => simpa using List.find?_eq_none.mp found node member
  | some other =>
    have same : other.ptr = node.ptr := by simpa using List.find?_some found
    rw [List.inj_on_of_nodup_map tidy.ptrs (List.mem_of_find?_eq_some found) member same]

theorem Tidy.take_cases (tidy : Tidy model) {loop : Loop α} {entry : Entry α} (known : value loop.old entry.id = model.map.get entry.id) :
    (Matched model.rows entry ∧ loop.take model.rows entry = { loop with old := loop.old.insert entry.id none }) ∨
    (¬ Matched model.rows entry ∧ loop.take model.rows entry = loop.add entry) := by
  rw [Loop.take, known]
  cases found : model.map.get entry.id with
  | none =>
    refine .inr ⟨?_, rfl⟩
    rintro ⟨node, member, isId, -⟩
    rw [(tidy.mapped entry.id node.ptr).mpr ⟨node, member, isId, rfl⟩] at found
    cases found
  | some ptr =>
    obtain ⟨node, member, isId, rfl⟩ := (tidy.mapped entry.id ptr).mp found
    rw [Option.bind_some, tidy.node_at member]
    cases passes : entry.test node.path with
    | true => exact .inl ⟨⟨node, member, isId, passes⟩, by simp [passes]⟩
    | false =>
      refine .inr ⟨?_, by simp [passes]⟩
      rintro ⟨other, among, isOther, passesOther⟩
      rw [List.inj_on_of_nodup_map tidy.ids among member (isOther.trans isId.symm), passes] at passesOther
      cases passesOther

theorem Taken.begin (model : Model α) : Taken model [] model.begin := by
  have empty : model.begin.flat = [] := rfl
  have same : ∀ id, value model.begin.old id = model.map.get id := by
    intro id
    rw [value, Model.begin, OrdMap.get_mapValues]
    cases model.map.get id with
    | none => rfl
    | some ptr => rfl
  refine ⟨by simp, fun id _ => same id, ?_, ?_, by simp [empty], by simp, by simp [empty], le_rfl⟩
  · intro id unknown
    simpa [Model.begin] using unknown
  · intro path fresh found
    simp [Model.begin] at found

theorem Loop.add_flat (loop : Loop α) (entry : Entry α) :
    (loop.add entry).flat.Perm (⟨loop.next, entry.id, 0, entry.path, false⟩ :: loop.flat) :=
  flatMap_put_perm loop.fresh.sorted _ _

theorem Taken.take (tidy : Tidy model) {done : List (Entry α)} {loop : Loop α} (taken : Taken model done loop) {entry : Entry α}
    (new : ∀ other ∈ done, other.id ≠ entry.id) : Taken model (done ++ [entry]) (loop.take model.rows entry) := by
  have unmatched : ∀ other ∈ done, other.id = entry.id → ¬ Matched model.rows other := fun other among same => absurd same (new other among)
  rcases tidy.take_cases (taken.others entry.id unmatched) with ⟨isMatched, same⟩ | ⟨notMatched, same⟩ <;> rw [same]
  · refine ⟨?_, ?_, ?_, taken.pairs, ?_, ?_, taken.once, taken.next⟩
    · intro other among otherMatched
      rw [value, OrdMap.get_insert]
      split_ifs with isEntry
      · rfl
      · rcases List.mem_append.mp among with older | last
        · exact taken.matched other older otherMatched
        · rw [List.mem_singleton.mp last] at isEntry
          exact absurd rfl isEntry
    · intro id absent
      rw [value, OrdMap.get_insert]
      split_ifs with isEntry
      · exact absurd isMatched (absent entry (by simp) isEntry)
      · exact taken.others id (fun other older => absent other (List.mem_append_left _ older))
    · intro id unknown
      rw [OrdMap.get_insert] at unknown
      split_ifs at unknown
      exact taken.keys id unknown
    · intro node member
      obtain ⟨⟨isReal, other, older, rest⟩, bounds⟩ := taken.made node member
      exact ⟨⟨isReal, other, List.mem_append_left _ older, rest⟩, bounds⟩
    · intro other among otherNot
      rcases List.mem_append.mp among with older | last
      · exact taken.all other older otherNot
      · rw [List.mem_singleton.mp last] at otherNot
        exact absurd isMatched otherNot
  · have perm := loop.add_flat entry
    refine ⟨?_, ?_, taken.keys, ?_, ?_, ?_, ?_, taken.next.trans (Nat.le_succ _)⟩
    · intro other among otherMatched
      rcases List.mem_append.mp among with older | last
      · exact taken.matched other older otherMatched
      · rw [List.mem_singleton.mp last] at otherMatched
        exact absurd otherMatched notMatched
    · exact fun id absent => taken.others id (fun other older => absent other (List.mem_append_left _ older))
    · intro path fresh found
      rw [Loop.add, OrdMap.get_insert] at found
      split_ifs at found with isPath
      · cases found
        refine ⟨by simp, ?_⟩
        intro node member
        rcases List.mem_append.mp member with older | last
        · cases before : loop.fresh.get entry.path with
          | none => simp [before] at older
          | some nodes =>
            rw [before, Option.getD_some] at older
            exact ((taken.pairs entry.path nodes before).2 node older).trans isPath
        · rw [List.mem_singleton.mp last]
          exact isPath
      · exact taken.pairs path fresh found
    · intro node member
      rcases List.mem_cons.mp (perm.mem_iff.mp member) with rfl | older
      · exact ⟨⟨rfl, entry, by simp, notMatched, rfl, rfl⟩, taken.next, Nat.lt_succ_self _⟩
      · obtain ⟨⟨isReal, other, among, rest⟩, low, high⟩ := taken.made node older
        exact ⟨⟨isReal, other, List.mem_append_left _ among, rest⟩, low, high.trans (Nat.lt_succ_self _)⟩
    · intro other among otherNot
      rcases List.mem_append.mp among with older | last
      · obtain ⟨node, member, isId⟩ := taken.all other older otherNot
        exact ⟨node, perm.mem_iff.mpr (List.mem_cons_of_mem _ member), isId⟩
      · rw [List.mem_singleton.mp last]
        exact ⟨_, perm.mem_iff.mpr List.mem_cons_self, rfl⟩
    · rw [perm.pairwise_iff (fun differ => ⟨differ.1.symm, differ.2.symm⟩), List.pairwise_cons]
      refine ⟨?_, taken.once⟩
      intro node member
      obtain ⟨⟨-, other, among, -, isId, -⟩, -, high⟩ := taken.made node member
      exact ⟨isId ▸ (new other among).symm, high.ne'⟩

theorem Taken.all_taken (tidy : Tidy model) (once : (entries.map Entry.id).Nodup) :
    Taken model entries (entries.foldl (Loop.take model.rows) model.begin) := by
  induction entries using List.reverseRecOn with
  | nil => exact Taken.begin model
  | append_singleton before entry ih =>
    rw [List.map_append, List.nodup_append] at once
    rw [List.foldl_append]
    refine (ih once.1).take tidy ?_
    intro other among same
    exact once.2.2 other.id (List.mem_map_of_mem among) entry.id (by simp) same

/-! ## Between two calls -/

/-- What holds between two calls: a node that is not virtual is at its own path, and the branches
that may be pinned are on top. -/
structure Sound (top : α → Bool) (model : Model α) : Prop where
  tidy : Tidy model
  real : ∀ place ∈ places STreeNode.id [] model.rows, place.2.isVirtual = false → place.2.path = place.1
  virtual : ∀ place ∈ places STreeNode.id [] model.rows, place.2.isVirtual = true → place.2.path = []
  branches : ∀ place ∈ places STreeNode.id [] model.rows, top place.2.id = true → place.1 = [] ∧ place.2.isVirtual = true
  start : root < model.next

theorem initial_sound (top : α → Bool) : Sound top (initial : Model α) where
  tidy := initial_tidy
  real := by simp [initial]
  virtual := by simp [initial]
  branches := by simp [initial]
  start := Nat.lt_succ_self _

/-- The entry is shown already, and where it is now. -/
def Staying (rows : Rows (STreeNode α)) (entry : Entry α) : Prop :=
  ∃ place ∈ places STreeNode.id [] rows, place.1 = entry.path ∧ place.2.id = entry.id ∧ place.2.isVirtual = false

/-- What the code leaves out: the nodes above an entry that stays are shown now exactly when they were, no
branch becomes an entry of its own on top, and an id that is null has another entry below it that stays. -/
structure Compatible (null : α → Bool) (entries : List (Entry α)) (rows : Rows (STreeNode α)) : Prop where
  ancestors : ∀ entry ∈ entries, Staying rows entry → ∀ place ∈ places STreeNode.id [] rows, place.1 ++ [place.2.id] <+: entry.path →
    (place.2.isVirtual = false ↔ Shown entries place.2.id)
  branches : ∀ entry ∈ entries, entry.path = [] → ∀ place ∈ places STreeNode.id [] rows, place.2.id = entry.id → place.2.isVirtual = false
  nulls : ∀ entry ∈ entries, Staying rows entry → null entry.id = true →
    ∃ other ∈ entries, Staying rows other ∧ null other.id = false ∧ entry.path ++ [entry.id] <+: other.path

section
variable {null top : α → Bool}

theorem Tidy.same_place (tidy : Tidy model) {one other : List α × STreeNode α} (isOne : one ∈ places STreeNode.id [] model.rows)
    (isOther : other ∈ places STreeNode.id [] model.rows) (same : one.2.id = other.2.id) : one = other := by
  have ids := tidy.ids
  rw [← places_nodes STreeNode.id model.rows [], List.map_map] at ids
  exact List.inj_on_of_nodup_map ids isOne isOther same

theorem Sound.matched (sound : Sound top model) (coherent : Coherent entries pos top) (compatible : Compatible null entries model.rows)
    {entry : Entry α} (among : entry ∈ entries) : Matched model.rows entry ↔ Staying model.rows entry := by
  constructor
  · rintro ⟨node, member, isId, passes⟩
    rw [← places_nodes STreeNode.id model.rows []] at member
    obtain ⟨place, there, rfl⟩ := List.mem_map.mp member
    have isPath := (coherent.test entry among _).mp passes
    cases isVirtual : place.2.isVirtual with
    | false => exact ⟨place, there, (sound.real place there isVirtual).symm.trans isPath, isId, isVirtual⟩
    | true =>
      rw [sound.virtual place there isVirtual] at isPath
      rw [compatible.branches entry among isPath.symm place there isId] at isVirtual
      cases isVirtual
  · rintro ⟨place, there, isPath, isId, isReal⟩
    refine ⟨place.2, ?_, isId, (coherent.test entry among _).mpr ((sound.real place there isReal).trans isPath)⟩
    rw [← places_nodes STreeNode.id model.rows []]
    exact List.mem_map_of_mem there

variable {loop : Loop α}

theorem Sound.bRemove_false (sound : Sound top model) (coherent : Coherent entries pos top) (compatible : Compatible null entries model.rows)
    (taken : Taken model entries loop) {place : List α × STreeNode α} (there : place ∈ places STreeNode.id [] model.rows)
    (isReal : place.2.isVirtual = false) (notNull : null place.2.id = false) :
    bRemove null loop.old place.2 = false ↔ ∃ entry ∈ entries, Staying model.rows entry ∧ entry.id = place.2.id := by
  simp only [bRemove, isReal, notNull, Bool.not_false, Bool.true_and, Option.isSome_eq_false_iff, Option.isNone_iff_eq_none]
  constructor
  · intro unknown
    by_contra absent
    have same := taken.others place.2.id (by
      intro entry among isId isMatched
      exact absent ⟨entry, among, (sound.matched coherent compatible among).mp isMatched, isId⟩)
    rw [unknown] at same
    exact sound.tidy.known there rfl same.symm
  · rintro ⟨entry, among, staying, isId⟩
    rw [← isId]
    exact taken.matched entry among ((sound.matched coherent compatible among).mpr staying)

theorem Sound.stays_cases (sound : Sound top model) (coherent : Coherent entries pos top) (compatible : Compatible null entries model.rows)
    (taken : Taken model entries loop) {place : List α × STreeNode α} (there : place ∈ places STreeNode.id [] model.rows)
    (stay : stays null pinned loop.old place.2 = true) :
    pinned place.2.id = true ∨ (place.2.isVirtual = false ∧ ∃ entry ∈ entries, Staying model.rows entry ∧ entry.id = place.2.id ∧ place.1 = entry.path) := by
  rw [stays, Bool.or_eq_true, Bool.not_eq_true', Bool.or_eq_false_iff, Bool.or_eq_false_iff] at stay
  rcases stay with ⟨⟨isReal, notNull⟩, wanted⟩ | isPinned
  · obtain ⟨entry, among, staying, isId⟩ := (sound.bRemove_false coherent compatible taken there isReal notNull).mp wanted
    obtain ⟨other, isOther, isPath, otherId, -⟩ := staying
    have same := sound.tidy.same_place isOther there (otherId.trans isId)
    subst same
    exact .inr ⟨isReal, entry, among, ⟨other, isOther, isPath, otherId, isReal⟩, isId, isPath⟩
  · exact .inl isPinned

theorem Sound.left_cases (sound : Sound top model) (coherent : Coherent entries pos top) (compatible : Compatible null entries model.rows)
    (taken : Taken model entries loop) (pins : ∀ id, pinned id = true → top id = true) {place : List α × STreeNode α}
    (left : place ∈ places STreeNode.id [] (prune (stays null pinned loop.old) model.rows)) :
    (pinned place.2.id = true) ∨ ∃ entry ∈ entries, Staying model.rows entry ∧
      ((entry.id = place.2.id ∧ place.1 = entry.path ∧ place.2.isVirtual = false) ∨
        (place.1 ++ [place.2.id] <+: entry.path ∧
          ∃ below ∈ places STreeNode.id [] (prune (stays null pinned loop.old) model.rows), below.2.isVirtual = false ∧ below.1 = entry.path)) := by
  have subset := (prune_sublist STreeNode.id (stays null pinned loop.old) model.rows []).subset
  rcases prune_reason STreeNode.id left with stay | ⟨below, belowLeft, stay, isBelow⟩
  · rcases sound.stays_cases coherent compatible taken (subset left) stay with isPinned | ⟨isReal, entry, among, staying, isId, isPath⟩
    · exact .inl isPinned
    · exact .inr ⟨entry, among, staying, .inl ⟨isId, isPath, isReal⟩⟩
  · rcases sound.stays_cases coherent compatible taken (subset belowLeft) stay with isPinned | ⟨isReal, entry, among, staying, -, isPath⟩
    · -- A pinned branch is on top, so nothing is above it.
      rw [(sound.branches below (subset belowLeft) (pins _ isPinned)).1] at isBelow
      simp at isBelow
    · exact .inr ⟨entry, among, staying, .inr ⟨isPath ▸ isBelow, below, belowLeft, isReal, isPath⟩⟩

theorem Sound.left_spec (sound : Sound top model) (coherent : Coherent entries pos top) (compatible : Compatible null entries model.rows)
    (taken : Taken model entries loop) (pins : ∀ id, pinned id = true → top id = true) {place : List α × STreeNode α}
    (left : place ∈ places STreeNode.id [] (prune (stays null pinned loop.old) model.rows)) :
    place.1 = pos place.2.id ∧ (place.2.isVirtual = false ↔ Shown entries place.2.id) ∧
      (place.2.isVirtual = true → pinned place.2.id = true ∨
        ∃ below ∈ places STreeNode.id [] (prune (stays null pinned loop.old) model.rows),
          below.2.isVirtual = false ∧ place.1 ++ [place.2.id] <+: below.1) := by
  have there := (prune_sublist STreeNode.id (stays null pinned loop.old) model.rows []).subset left
  rcases sound.left_cases coherent compatible taken pins left with
    isPinned | ⟨entry, among, staying, ⟨isId, isPath, isReal⟩ | ⟨isAbove, below, belowLeft, isReal, belowPath⟩⟩
  · obtain ⟨onTop, isVirtual⟩ := sound.branches place there (pins _ isPinned)
    obtain ⟨isPos, hidden⟩ := coherent.top place.2.id (pins _ isPinned)
    exact ⟨onTop.trans isPos.symm, by simp [isVirtual, hidden], fun _ => .inl isPinned⟩
  · refine ⟨?_, by simp [isReal, show Shown entries place.2.id from ⟨entry, among, isId⟩], fun isVirtual => by simp [isReal] at isVirtual⟩
    rw [isPath, coherent.own entry among, isId]
  · obtain ⟨lower, isEntry⟩ := isAbove
    rw [List.append_assoc, List.singleton_append] at isEntry
    refine ⟨(coherent.steps entry among _ _ _ isEntry.symm).symm, ?_, fun _ => .inr ⟨below, belowLeft, isReal, ?_⟩⟩
    · refine compatible.ancestors entry among staying place there ⟨lower, ?_⟩
      rw [List.append_assoc, List.singleton_append, isEntry]
    · refine ⟨lower, ?_⟩
      rw [List.append_assoc, List.singleton_append, isEntry, belowPath]

theorem Sound.wanted (sound : Sound top model) (coherent : Coherent entries pos top) (compatible : Compatible null entries model.rows)
    (taken : Taken model entries loop) (pins : ∀ id, pinned id = true → top id = true) :
    ∀ node ∈ nodes (prune (stays null pinned loop.old) model.rows), bRemove null loop.old node = false := by
  intro node member
  rw [← places_nodes STreeNode.id _ []] at member
  obtain ⟨place, left, rfl⟩ := List.mem_map.mp member
  have there := (prune_sublist STreeNode.id (stays null pinned loop.old) model.rows []).subset left
  obtain ⟨isPos, isShown, -⟩ := sound.left_spec coherent compatible taken pins left
  cases isVirtual : place.2.isVirtual with
  | true => simp [bRemove, isVirtual]
  | false =>
    cases isNull : null place.2.id with
    | true => simp [bRemove, isNull]
    | false =>
      obtain ⟨entry, among, isId⟩ := isShown.mp isVirtual
      refine (sound.bRemove_false coherent compatible taken there isVirtual isNull).mpr ⟨entry, among, ?_, isId⟩
      exact ⟨place, there, by rw [isPos, coherent.own entry among, isId], isId.symm, isVirtual⟩

theorem Tidy.raise {next : Nat} (tidy : Tidy model) (grows : model.next ≤ next) : Tidy { model with next := next } :=
  ⟨tidy.numbered, tidy.linked, tidy.ids, tidy.ptrs, tidy.mapped, fun node member =>
    ⟨(tidy.bounds node member).1, (tidy.bounds node member).2.trans_le grows⟩⟩

theorem Sound.purged (sound : Sound top model) (coherent : Coherent entries pos top) (compatible : Compatible null entries model.rows)
    (taken : Taken model entries loop) (pins : ∀ id, pinned id = true → top id = true) :
    Growing entries pos pinned [] { purge_root null pinned loop.old model with next := loop.next } := by
  have subset := (prune_sublist STreeNode.id (stays null pinned loop.old) model.rows []).subset
  have spec := fun {place} => @Sound.left_spec _ _ entries pos pinned model null top loop sound coherent compatible taken pins place
  refine ⟨(sound.tidy.purge (sound.wanted coherent compatible taken pins)).raise taken.next, ?_, ?_, ?_, ?_⟩ <;>
    rw [purge_root_places] <;> intro place left
  · exact (spec left).1
  · exact fun isReal => ⟨sound.real place (subset left) isReal, (spec left).2.1.mp isReal⟩
  · refine fun isVirtual => ⟨sound.virtual place (subset left) isVirtual, fun shown => ?_⟩
    rw [(spec left).2.1.mpr shown] at isVirtual
    cases isVirtual
  · intro isVirtual
    rcases (spec left).2.2 isVirtual with isPinned | below
    · exact .inl isPinned
    · exact .inr (.inl below)

theorem Sound.left_staying (sound : Sound top model) (coherent : Coherent entries pos top) (compatible : Compatible null entries model.rows)
    (taken : Taken model entries loop) {entry : Entry α} (among : entry ∈ entries) (staying : Staying model.rows entry) :
    ∃ place ∈ places STreeNode.id [] (prune (stays null pinned loop.old) model.rows), place.2.id = entry.id := by
  have left : ∀ {entry : Entry α}, entry ∈ entries → Staying model.rows entry → null entry.id = false →
      ∃ place ∈ places STreeNode.id [] (prune (stays null pinned loop.old) model.rows), place.2.id = entry.id ∧ place.1 = entry.path := by
    intro entry among staying notNull
    obtain ⟨place, there, isPath, isId, isReal⟩ := staying
    have isNull : null place.2.id = false := isId ▸ notNull
    have wanted := (sound.bRemove_false coherent compatible taken there isReal isNull).mpr
      ⟨entry, among, ⟨place, there, isPath, isId, isReal⟩, isId.symm⟩
    exact ⟨place, prune_stays STreeNode.id there (by simp [stays, isReal, isNull, wanted]), isId, isPath⟩
  cases isNull : null entry.id with
  | false =>
    obtain ⟨place, there, isId, -⟩ := left among staying isNull
    exact ⟨place, there, isId⟩
  | true =>
    obtain ⟨other, isOther, otherStaying, notNull, lower, isLower⟩ := compatible.nulls entry among staying isNull
    obtain ⟨place, there, -, isPath⟩ := left isOther otherStaying notNull
    rw [List.append_assoc, List.singleton_append] at isLower
    obtain ⟨node, above, isId⟩ := @places_ancestor _ _ STreeNode.id _ [] _ there entry.path lower entry.id (by rw [isPath, List.nil_append, isLower])
    exact ⟨_, above, isId⟩

/-- Purging an empty tree does nothing, so that `Sync` may leave it out. -/
theorem purged_always (tidy : Tidy model) (taken : Taken model entries loop) :
    (bif loop.old.entries.isEmpty then model else purge_root null pinned loop.old model) = purge_root null pinned loop.old model := by
  cases isEmpty : loop.old.entries.isEmpty with
  | false => rfl
  | true =>
    have unknown : ∀ id, model.map.get id = none := by
      intro id
      apply taken.keys
      rw [OrdMap.get, List.isEmpty_iff.mp isEmpty, find_nil]
    have none : model.rows = .nil := by
      cases rows : model.rows with
      | nil => rfl
      | cons row node children rest =>
        have known := (tidy.mapped node.id node.ptr).mpr ⟨node, by simp [rows, nodes], rfl, rfl⟩
        rw [unknown] at known
        cases known
    obtain ⟨rows, map, next⟩ := model
    subst none
    rfl

/-! ## Sync -/

/-- What the model shows after a call: the rows have their numbers, every link up is a link down the other way, the map has
exactly the nodes of the tree, every synced id is there once and at its path, no other node is not virtual, and a virtual
node has one that is not virtual below it, or is a pinned branch or above one. -/
structure Structured (pinned : α → Bool) (synced : List (Entry α)) (model : Model α) : Prop where
  numbered : model.rows.Numbered 0
  linked : Linked root model.rows
  mapped : ∀ id ptr, model.map.get id = some ptr ↔ ∃ node ∈ nodes model.rows, node.id = id ∧ node.ptr = ptr
  ids : ((nodes model.rows).map STreeNode.id).Nodup
  ptrs : ((nodes model.rows).map STreeNode.ptr).Nodup
  shown : ∀ entry ∈ synced, ∃ place ∈ places STreeNode.id [] model.rows, place.1 = entry.path ∧ place.2.id = entry.id ∧ place.2.isVirtual = false
  real : ∀ node ∈ nodes model.rows, node.isVirtual = false → ∃ entry ∈ synced, entry.id = node.id
  virtual : ∀ place ∈ places STreeNode.id [] model.rows, place.2.isVirtual = true →
    (∃ below ∈ places STreeNode.id [] model.rows, below.2.isVirtual = false ∧ place.1 ++ [place.2.id] <+: below.1) ∨ pinned place.2.id = true ∨
    ∃ below ∈ places STreeNode.id [] model.rows, pinned below.2.id = true ∧ place.1 ++ [place.2.id] <+: below.1

theorem Growing.structured (growing : Growing entries pos pinned [] model) (coherent : Coherent entries pos top)
    (all : ∀ entry ∈ entries, model.map.get entry.id ≠ none) : Structured pinned entries model := by
  refine ⟨growing.tidy.numbered, growing.tidy.linked, growing.tidy.mapped, growing.tidy.ids, growing.tidy.ptrs, ?_, ?_, ?_⟩
  · intro entry among
    obtain ⟨place, there, isId⟩ := growing.tidy.place (all entry among)
    refine ⟨place, there, ?_, isId, ?_⟩
    · rw [growing.position place there, isId, coherent.own entry among]
    · by_contra isVirtual
      rw [Bool.not_eq_false] at isVirtual
      exact (growing.virtual place there isVirtual).2 ⟨entry, among, isId.symm⟩
  · intro node member isReal
    rw [← places_nodes STreeNode.id model.rows []] at member
    obtain ⟨place, there, rfl⟩ := List.mem_map.mp member
    exact (growing.real place there isReal).2
  · intro place there isVirtual
    rcases growing.reason place there isVirtual with isPinned | below | onTheWay
    · exact .inr (.inl isPinned)
    · exact .inl below
    · simp at onTheWay

theorem Growing.sound (growing : Growing entries pos pinned [] model) (coherent : Coherent entries pos top) (start : root < model.next) :
    Sound top model where
  tidy := growing.tidy
  real place there isReal := (growing.real place there isReal).1
  virtual place there isVirtual := (growing.virtual place there isVirtual).1
  branches place there isTop := by
    obtain ⟨onTop, hidden⟩ := coherent.top place.2.id isTop
    refine ⟨(growing.position place there).trans onTop, ?_⟩
    by_contra isReal
    rw [Bool.not_eq_true] at isReal
    exact hidden (growing.real place there isReal).2
  start := start

theorem Sound.sync (sound : Sound top model) (coherent : Coherent entries pos top) (compatible : Compatible null entries model.rows)
    (pins : ∀ id, pinned id = true → top id = true) :
    Sound top (sync null pinned entries model) ∧ Structured pinned entries (sync null pinned entries model) := by
  have taken := Taken.all_taken sound.tidy coherent.once
  have growing := sound.purged coherent compatible taken pins
  have start := sound.start.trans_le taken.next
  rw [TreeItemModel.sync, purged_always sound.tidy taken]
  have fresh : Fresh entries pos { purge_root null pinned (entries.foldl (Loop.take model.rows) model.begin).old model with
      next := (entries.foldl (Loop.take model.rows) model.begin).next } (entries.foldl (Loop.take model.rows) model.begin).flat := by
    refine ⟨?_, ?_, ?_, taken.once⟩ <;> intro node member
    · obtain ⟨⟨isReal, entry, among, -, isId, isPath⟩, -⟩ := taken.made node member
      exact ⟨isReal, by rw [isPath, coherent.own entry among, isId], entry, among, isId⟩
    · intro other there
      obtain ⟨⟨-, entry, among, notMatched, isId, -⟩, low, -⟩ := taken.made node member
      rw [purge_root_nodes] at there
      refine ⟨?_, ((sound.tidy.bounds other ((nodes_prune _ _).subset there)).2.trans_le low).ne⟩
      -- A node that is left with the id of an entry is that entry, which stays then.
      intro same
      rw [← places_nodes STreeNode.id _ []] at there
      obtain ⟨place, left, rfl⟩ := List.mem_map.mp there
      obtain ⟨isPos, isShown, -⟩ := sound.left_spec coherent compatible taken pins left
      apply notMatched
      refine (sound.matched coherent compatible among).mpr ⟨place, (prune_sublist STreeNode.id _ model.rows []).subset left, ?_, same.trans isId.symm, ?_⟩
      · rw [isPos, coherent.own entry among, same, isId]
      · exact isShown.mpr ⟨entry, among, isId.trans same.symm⟩
    · obtain ⟨-, low, high⟩ := taken.made node member
      exact ⟨sound.start.trans_le low, high⟩
  have each : ∀ pair ∈ (entries.foldl (Loop.take model.rows) model.begin).fresh.entries, pair.2 ≠ [] ∧ ∀ node ∈ pair.2, node.path = pair.1 :=
    fun pair isPair => taken.pairs pair.1 pair.2 (OrdMap.mem_entries.mp isPair)
  have known : ∀ entry ∈ entries,
      (purge_root null pinned (entries.foldl (Loop.take model.rows) model.begin).old model).map.get entry.id ≠ none ∨
      ∃ pair ∈ (entries.foldl (Loop.take model.rows) model.begin).fresh.entries, ∃ node ∈ pair.2, node.id = entry.id := by
    intro entry among
    by_cases isMatched : Matched model.rows entry
    · left
      obtain ⟨place, left, isId⟩ := @Sound.left_staying _ _ entries pos pinned model null top _ sound coherent compatible taken entry among
        ((sound.matched coherent compatible among).mp isMatched)
      rw [← purge_root_places] at left
      exact growing.tidy.known left isId
    · right
      obtain ⟨node, member, isId⟩ := taken.all entry among isMatched
      obtain ⟨pair, isPair, inPair⟩ := List.mem_flatMap.mp member
      exact ⟨pair, isPair, node, inPair, isId⟩
  obtain ⟨grown, startAfter, all⟩ := growing.fill_all coherent (OrdMap.sorted _) each fresh known start
  exact ⟨grown.sound coherent startAfter, grown.structured coherent all⟩

theorem Sound.clear (sound : Sound top model) (pins : ∀ id, pinned id = true → top id = true) :
    Sound top (clear null pinned model) ∧ Structured pinned [] (clear null pinned model) := by
  have coherent : Coherent ([] : List (Entry α)) (fun _ => []) top := by
    refine ⟨by simp, by simp, by simp, by simp, fun id _ => ⟨rfl, ?_⟩⟩
    rintro ⟨entry, ⟨⟩, -⟩
  have compatible : Compatible null [] model.rows := ⟨by simp, by simp, by simp⟩
  have growing := @Sound.purged _ _ [] _ pinned _ _ _ _ sound coherent compatible (Taken.begin model) pins
  exact ⟨growing.sound coherent sound.start, growing.structured coherent (by simp)⟩

end

end

end TaskExplorer.TreeItemModel
