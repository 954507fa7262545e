import Mathlib

/-!
# Change notifications

`Sync` of a list and of a tree goes through the columns of a row that is still there, stores what has changed and
announces runs of changed cells. A column may be hidden; what a cell holds is compared by `differs`, the `!=` of `QVariant`.
-/

namespace TaskExplorer.ChangedRanges

section Columns
variable {V : Type} {columns : Nat}

/-- The locals of the loop over the columns, the values of the row and the ranges that `dataChanged` was emitted for. -/
structure Scan (V : Type) (columns : Nat) where
  Col : Nat
  State : Bool
  Changed : Bool
  Raw : Fin columns → V
  emitted : List (Nat × Nat)

variable (differs : V → V → Bool) (enabled : Fin columns → Bool) (value : Fin columns → V)

def visit (scan : Scan V columns) (column : Fin columns) : Scan V columns :=
  if enabled column = false then scan
  else
    let differ := differs (scan.Raw column) (value column)
    let raw := if differ then Function.update scan.Raw column (value column) else scan.Raw
    let changed := scan.Changed || differ
    if scan.State ≠ changed then
      { Col := column, State := changed, Changed := false, Raw := raw
        emitted := if scan.State then scan.emitted ++ [(scan.Col, column.val - 1)] else scan.emitted }
    else { scan with Changed := false, Raw := raw }

/-- The run that is open after the last column ends with it. -/
def close (scan : Scan V columns) : List (Nat × Nat) :=
  if scan.State then scan.emitted ++ [(scan.Col, columns - 1)] else scan.emitted

/-- One row: its values afterwards and the ranges that are emitted. -/
def sync_row (bold : Bool) (raw : Fin columns → V) : (Fin columns → V) × List (Nat × Nat) :=
  let scan := (List.finRange columns).foldl (visit differs enabled value) ⟨0, false, bold, raw, []⟩
  (scan.Raw, close scan)

/-! ## Runs of changed cells -/

/-- A cell of a row of which these columns have been visited is to be painted again. -/
def Repaint (bold : Bool) (raw : Fin columns → V) (done : List (Fin columns)) (column : Fin columns) : Prop :=
  differs (raw column) (value column) = true ∨ (bold = true ∧ done.find? enabled = some column)

def Covers (ranges : List (Nat × Nat)) (column : Fin columns) : Prop := ∃ range ∈ ranges, range.1 ≤ column ∧ column ≤ range.2

/-- What the loop knows after the columns of `done`. -/
structure Scanned (bold : Bool) (raw : Fin columns → V) (done : List (Fin columns)) (scan : Scan V columns) : Prop where
  values : ∀ column, scan.Raw column =
    if column ∈ done ∧ enabled column = true ∧ differs (raw column) (value column) = true then value column else raw column
  pending : scan.Changed = (bold && (done.find? enabled).isNone)
  opened : scan.State = true → ∃ column ∈ done, column.val = scan.Col
  ends : ∀ range ∈ scan.emitted, range.1 ≤ range.2 ∧ ∃ column ∈ done, range.2 < column.val
  behind : scan.State = true → ∀ range ∈ scan.emitted, range.2 < scan.Col
  increasing : scan.emitted.Pairwise (fun left right => left.2 < right.1)
  exact_ : ∀ column ∈ done, enabled column = true → ((Covers scan.emitted column ∨ (scan.State = true ∧ scan.Col ≤ column)) ↔
    Repaint differs enabled value bold raw done column)

variable {differs enabled value} {bold : Bool} {raw : Fin columns → V} {done : List (Fin columns)} {scan : Scan V columns}

theorem covers_snoc (ranges : List (Nat × Nat)) (first last : Nat) (column : Fin columns) :
    Covers (ranges ++ [(first, last)]) column ↔ Covers ranges column ∨ (first ≤ column ∧ column ≤ last) := by
  simp [Covers, or_and_right, exists_or]

theorem repaint_snoc {column next : Fin columns} (member : column ∈ done) (shown : enabled column = true) :
    Repaint differs enabled value bold raw (done ++ [next]) column ↔ Repaint differs enabled value bold raw done column := by
  have found : (done.find? enabled).isSome := List.find?_isSome.mpr ⟨column, member, shown⟩
  obtain ⟨first, isFirst⟩ := Option.isSome_iff_exists.mp found
  simp [Repaint, List.find?_append, isFirst]

theorem repaint_last {next : Fin columns} (absent : next ∉ done) (shown : enabled next = true) :
    Repaint differs enabled value bold raw (done ++ [next]) next ↔
      (bold && (done.find? enabled).isNone || differs (raw next) (value next)) = true := by
  cases found : done.find? enabled with
  | none => simp [Repaint, List.find?_append, found, shown, or_comm]
  | some first =>
    have other : first ≠ next := fun same => absent (same ▸ List.mem_of_find?_eq_some found)
    simp [Repaint, List.find?_append, found, other]

theorem Scanned.visit (scanned : Scanned differs enabled value bold raw done scan) {next : Fin columns}
    (later : ∀ column ∈ done, column < next) :
    Scanned differs enabled value bold raw (done ++ [next]) (visit differs enabled value scan next) := by
  have absent : next ∉ done := fun member => lt_irrefl _ (later next member)
  have still : scan.Raw next = raw next := by rw [scanned.values, if_neg (fun h => absent h.1)]
  have emittedBefore (range : Nat × Nat) (member : range ∈ scan.emitted) : range.2 < next.val := by
    obtain ⟨-, column, among, below⟩ := scanned.ends range member
    exact below.trans (later column among)
  have ends (range : Nat × Nat) (member : range ∈ scan.emitted) :
      range.1 ≤ range.2 ∧ ∃ column ∈ done ++ [next], range.2 < column.val := by
    obtain ⟨proper, column, among, below⟩ := scanned.ends range member
    exact ⟨proper, column, List.mem_append_left _ among, below⟩
  by_cases shown : enabled next = true
  swap
  · have hidden : enabled next = false := by simpa using shown
    have stepped : ChangedRanges.visit differs enabled value scan next = scan := by simp [ChangedRanges.visit, hidden]
    rw [stepped]
    have found : (done ++ [next]).find? enabled = done.find? enabled := by
      rw [List.find?_append]
      simp [hidden]
    refine ⟨fun column => ?_, by rw [found]; exact scanned.pending, fun state => ?_, ends, scanned.behind, scanned.increasing,
      fun column member visible => ?_⟩
    · rw [scanned.values]
      by_cases same : column = next
      · simp [same, hidden]
      · simp [same]
    · obtain ⟨column, among, isCol⟩ := scanned.opened state
      exact ⟨column, List.mem_append_left _ among, isCol⟩
    · rcases List.mem_append.mp member with earlier | last
      · rw [repaint_snoc earlier visible]
        exact scanned.exact_ column earlier visible
      · rw [List.mem_singleton.mp last, hidden] at visible
        cases visible
  · have col (state : scan.State = true) : scan.Col < next.val := by
      obtain ⟨column, among, isCol⟩ := scanned.opened state
      exact isCol ▸ later column among
    have uncovered : ¬ Covers scan.emitted next := by
      rintro ⟨range, member, -, reaches⟩
      exact absurd (emittedBefore range member) (not_lt.mpr reaches)
    have values (column : Fin columns) :
        (if differs (raw next) (value next) = true then Function.update scan.Raw next (value next) else scan.Raw) column =
          if column ∈ done ++ [next] ∧ enabled column = true ∧ differs (raw column) (value column) = true then value column
          else raw column := by
      by_cases same : column = next
      · subst same
        by_cases differ : differs (raw column) (value column) = true <;> simp [differ, shown, still]
      · have kept : (if differs (raw next) (value next) = true then Function.update scan.Raw next (value next) else scan.Raw) column =
            scan.Raw column := by
          split_ifs
          · exact Function.update_of_ne same _ _
          · rfl
        rw [kept, scanned.values]
        simp [same]
    have pending : false = (bold && ((done ++ [next]).find? enabled).isNone) := by
      rw [List.find?_append]
      simp [shown]
    have last := @repaint_last V columns differs enabled value bold raw done next absent shown
    rw [← scanned.pending] at last
    have earlier (column : Fin columns) (member : column ∈ done) (visible : enabled column = true) :=
      (scanned.exact_ column member visible).trans (@repaint_snoc V columns differs enabled value bold raw done column next member visible).symm
    rw [ChangedRanges.visit, if_neg (by simp [shown])]
    simp only [still]
    generalize changes : (scan.Changed || differs (raw next) (value next)) = changed at last ⊢
    cases state : scan.State <;> rw [state] at earlier <;> cases changed
    · rw [if_neg (by simp)]
      refine ⟨values, pending, by simp, ends, by simp, scanned.increasing, fun column member visible => ?_⟩
      rcases List.mem_append.mp member with before | isLast
      · exact earlier column before visible
      · rw [List.mem_singleton.mp isLast, last]
        simp [uncovered]
    · rw [if_pos (by simp)]
      refine ⟨values, pending, fun _ => ⟨next, by simp, rfl⟩, by simpa using ends, fun _ => by simpa using emittedBefore,
        by simpa using scanned.increasing, fun column member visible => ?_⟩
      rcases List.mem_append.mp member with before | isLast
      · rw [← earlier column before visible]
        have below : ¬ next ≤ column := not_le.mpr (later column before)
        simp [below]
      · rw [List.mem_singleton.mp isLast, last]
        simp
    · rw [if_pos (by simp)]
      have below := col state
      refine ⟨values, pending, by simp, fun range member => ?_, by simp, ?_, fun column member visible => ?_⟩
      · rcases List.mem_append.mp member with old | new
        · exact ends range old
        · rw [List.mem_singleton.mp new]
          exact ⟨by simp only; omega, next, by simp, by simp only; omega⟩
      · simp only [if_true, List.pairwise_append]
        exact ⟨scanned.increasing, List.pairwise_singleton _ _, fun range member => by simpa using scanned.behind state range member⟩
      · simp only [if_true, covers_snoc]
        rcases List.mem_append.mp member with before | isLast
        · rw [← earlier column before visible]
          have inside : column.val ≤ next.val - 1 := by have := later column before; omega
          simp [inside]
        · rw [List.mem_singleton.mp isLast, last]
          have outside : ¬ next.val ≤ next.val - 1 := by omega
          simp [uncovered, outside]
    · rw [if_neg (by simp)]
      refine ⟨values, pending, fun _ => ?_, ends, fun _ => scanned.behind state, scanned.increasing, fun column member visible => ?_⟩
      · obtain ⟨column, among, isCol⟩ := scanned.opened state
        exact ⟨column, List.mem_append_left _ among, isCol⟩
      · rcases List.mem_append.mp member with before | isLast
        · exact earlier column before visible
        · rw [List.mem_singleton.mp isLast, last]
          simp [(col state).le]

/-- What is emitted for a row: proper ranges in order, which hold the cells to be painted again and no other enabled cell. -/
structure Announces (enabled : Fin columns → Bool) (changed : Fin columns → Prop) (ranges : List (Nat × Nat)) : Prop where
  proper : ∀ range ∈ ranges, range.1 ≤ range.2 ∧ range.2 < columns
  increasing : ranges.Pairwise (fun left right => left.2 < right.1)
  exact_ : ∀ column, enabled column = true → (Covers ranges column ↔ changed column)

theorem scanned_foldl (bold : Bool) (raw : Fin columns → V) (done : List (Fin columns)) (sorted : done.Pairwise (· < ·)) :
    Scanned differs enabled value bold raw done (done.foldl (ChangedRanges.visit differs enabled value) ⟨0, false, bold, raw, []⟩) := by
  induction done using List.reverseRecOn with
  | nil => exact ⟨by simp, by simp, by simp, by simp, by simp, List.Pairwise.nil, by simp⟩
  | append_singleton done next ih =>
    obtain ⟨before, -, between⟩ := List.pairwise_append.mp sorted
    rw [List.foldl_append]
    exact (ih before).visit (fun column member => between column member next (List.mem_singleton_self next))

theorem sync_row_announces (bold : Bool) (raw : Fin columns → V) :
    Announces enabled (Repaint differs enabled value bold raw (List.finRange columns)) (sync_row differs enabled value bold raw).2 ∧
      ∀ column, (sync_row differs enabled value bold raw).1 column =
        if enabled column = true ∧ differs (raw column) (value column) = true then value column else raw column := by
  have scanned := @scanned_foldl V columns differs enabled value bold raw (List.finRange columns) (List.pairwise_lt_finRange columns)
  refine ⟨?_, fun column => by simpa [sync_row] using scanned.values column⟩
  rw [sync_row, close]
  generalize (List.finRange columns).foldl (ChangedRanges.visit differs enabled value) ⟨0, false, bold, raw, []⟩ = scan at scanned ⊢
  have ends (range : Nat × Nat) (member : range ∈ scan.emitted) : range.1 ≤ range.2 ∧ range.2 < columns := by
    obtain ⟨proper, column, -, below⟩ := scanned.ends range member
    exact ⟨proper, below.trans column.isLt⟩
  cases state : scan.State with
  | false =>
    refine ⟨ends, scanned.increasing, fun column visible => ?_⟩
    have cell := scanned.exact_ column (List.mem_finRange column) visible
    rw [state] at cell
    simpa using cell
  | true =>
    obtain ⟨first, -, isCol⟩ := scanned.opened state
    have room := first.isLt
    refine ⟨fun range member => ?_, ?_, fun column visible => ?_⟩
    · rcases List.mem_append.mp member with old | last
      · exact ends range old
      · rw [List.mem_singleton.mp last]
        exact ⟨by simp only; omega, by simp only; omega⟩
    · refine List.pairwise_append.mpr ⟨scanned.increasing, List.pairwise_singleton _ _, fun range member => ?_⟩
      simpa using scanned.behind state range member
    · have cell := scanned.exact_ column (List.mem_finRange column) visible
      rw [state] at cell
      have inside : column.val ≤ columns - 1 := Nat.le_pred_of_lt column.isLt
      simpa [covers_snoc, inside] using cell

end Columns

/-! ## The two models -/

section Models
variable {α V : Type} [DecidableEq α] {columns : Nat}

/-- A node of a row, as far as `Sync` compares it. -/
structure Node (α V : Type) (columns : Nat) where
  IsBold : Bool
  Path : List α
  Raw : Fin columns → V

/-- An entry of the list that is given to `Sync`: its values by column, and what `MakePath` and `TestPath` say of it. -/
structure Entry (α V : Type) (columns : Nat) where
  ID : α
  IsBold : Bool
  value : Fin columns → V
  Path : List α
  test : List α → Bool

/-- `m_Map` with its nodes, those of them that no entry has taken, the new nodes and the ranges emitted for a node. -/
structure Loop (α V : Type) (columns : Nat) where
  nodes : α → Option (Node α V columns)
  Old : α → Bool
  New : List (α × Node α V columns)
  emitted : List (α × Nat × Nat)

variable (differs : V → V → Bool) (blank : V) (enabled : Fin columns → Bool)

/-- One entry. Only a tree compares `IsBold` (`watched`); a list sets it where the node is made. -/
def take (watched : Bool) (loop : Loop α V columns) (cur : Entry α V columns) : Loop α V columns :=
  let fresh := { loop with
    New := loop.New ++ [(cur.ID, ⟨cur.IsBold, cur.Path, (sync_row differs enabled cur.value (watched && cur.IsBold) (fun _ => blank)).1⟩)] }
  match loop.nodes cur.ID with
  | none => fresh
  | some node =>
    if loop.Old cur.ID && cur.test node.Path then
      let (raw, ranges) := sync_row differs enabled cur.value (watched && node.IsBold != cur.IsBold) node.Raw
      { loop with
        nodes := Function.update loop.nodes cur.ID (some { node with IsBold := if watched then cur.IsBold else node.IsBold, Raw := raw })
        Old := Function.update loop.Old cur.ID false
        emitted := loop.emitted ++ ranges.map (fun range => (cur.ID, range)) }
    else fresh

def sync (watched : Bool) (nodes : α → Option (Node α V columns)) (entries : List (Entry α V columns)) : Loop α V columns :=
  entries.foldl (take differs blank enabled watched) ⟨nodes, fun id => (nodes id).isSome, [], []⟩

/-- An entry of a list; its values are under the numbers of the columns. -/
structure ListEntry (α V : Type) where
  ID : α
  IsBold : Bool
  Values : String → V

def ListEntry.entry (cur : ListEntry α V) : Entry α V columns :=
  ⟨cur.ID, cur.IsBold, fun column => cur.Values (toString column.val), [], fun _ => true⟩

/-- An entry of a tree; its values are under the keys of the columns. -/
structure TreeEntry (α V : Type) where
  ID : α
  IsBold : Bool
  Cur : String → V
  Path : List α
  test : List α → Bool

def TreeEntry.entry (m_ColumnKeys : Fin columns → String) (cur : TreeEntry α V) : Entry α V columns :=
  ⟨cur.ID, cur.IsBold, fun column => cur.Cur (m_ColumnKeys column), cur.Path, cur.test⟩

/-- The loop of `CSimpleListModel::Sync`. -/
def list_sync (nodes : α → Option (Node α V columns)) (list : List (ListEntry α V)) : Loop α V columns :=
  sync differs blank enabled false nodes (list.map ListEntry.entry)

/-- The loop of `CSimpleTreeModel::Sync`. -/
def tree_sync (m_ColumnKeys : Fin columns → String) (nodes : α → Option (Node α V columns)) (list : List (TreeEntry α V)) :
    Loop α V columns :=
  sync differs blank enabled true nodes (list.map (TreeEntry.entry m_ColumnKeys))

def Loop.ranges (loop : Loop α V columns) (id : α) : List (Nat × Nat) :=
  loop.emitted.filterMap (fun emitted => if emitted.1 = id then some emitted.2 else none)

/-- The entry finds a node that is there and that no earlier entry has taken. -/
structure Survives (nodes : α → Option (Node α V columns)) (before : List (Entry α V columns)) (cur : Entry α V columns)
    (node : Node α V columns) : Prop where
  there : nodes cur.ID = some node
  fits : cur.test node.Path = true
  first : ∀ other ∈ before, other.ID = cur.ID → other.test node.Path = false

/-- What becomes of a row that is still there: what is announced, and what is stored. -/
structure Refreshed (watched : Bool) (node : Node α V columns) (cur : Entry α V columns) (loop : Loop α V columns) : Prop where
  announced : Announces enabled (Repaint differs enabled cur.value (watched && node.IsBold != cur.IsBold) node.Raw (List.finRange columns))
    (loop.ranges cur.ID)
  stored : ∃ later, loop.nodes cur.ID = some later ∧ ∀ column, later.Raw column =
    if enabled column = true ∧ differs (node.Raw column) (cur.value column) = true then cur.value column else node.Raw column

variable {differs blank enabled} {watched : Bool}

/-- An entry that does not take the node of `id` leaves it, and what was emitted for it. -/
theorem take_other {loop : Loop α V columns} {cur : Entry α V columns} {id : α}
    (other : cur.ID = id → loop.Old id = false ∨ ∀ node, loop.nodes id = some node → cur.test node.Path = false) :
    let later := take differs blank enabled watched loop cur
    later.nodes id = loop.nodes id ∧ later.Old id = loop.Old id ∧ later.ranges id = loop.ranges id := by
  intro later
  have made : later = take differs blank enabled watched loop cur := rfl
  unfold take at made
  cases there : loop.nodes cur.ID with
  | none =>
    simp only [there] at made
    exact made ▸ ⟨rfl, rfl, rfl⟩
  | some node =>
    by_cases taken : (loop.Old cur.ID && cur.test node.Path) = true
    · have different : cur.ID ≠ id := by
        rintro rfl
        rw [Bool.and_eq_true] at taken
        rcases other rfl with gone | refuses
        · rw [gone] at taken
          exact absurd taken.1 (by simp)
        · rw [refuses node there] at taken
          exact absurd taken.2 (by simp)
      simp only [there, taken, if_true] at made
      rw [made]
      refine ⟨Function.update_of_ne (Ne.symm different) _ _, Function.update_of_ne (Ne.symm different) _ _, ?_⟩
      simp [Loop.ranges, List.filterMap_append, different]
    · simp only [there, taken] at made
      exact made ▸ ⟨rfl, rfl, rfl⟩

theorem foldl_other {id : α} (entries : List (Entry α V columns)) (loop : Loop α V columns)
    (others : loop.Old id = false ∨ ∀ cur ∈ entries, cur.ID = id → ∀ node, loop.nodes id = some node → cur.test node.Path = false) :
    let later := entries.foldl (take differs blank enabled watched) loop
    later.nodes id = loop.nodes id ∧ later.Old id = loop.Old id ∧ later.ranges id = loop.ranges id := by
  induction entries generalizing loop with
  | nil => exact ⟨rfl, rfl, rfl⟩
  | cons cur rest ih =>
    obtain ⟨nodes, old, ranges⟩ := @take_other α V _ columns differs blank enabled watched loop cur id
      (fun same => others.imp_right (fun each => each cur List.mem_cons_self same))
    obtain ⟨nodes', old', ranges'⟩ := ih (take differs blank enabled watched loop cur) (by
      rw [old, nodes]
      exact others.imp_right (fun each other member => each other (List.mem_cons_of_mem _ member)))
    exact ⟨nodes'.trans nodes, old'.trans old, ranges'.trans ranges⟩

theorem sync_refreshed {nodes : α → Option (Node α V columns)} {before after : List (Entry α V columns)} {cur : Entry α V columns}
    {node : Node α V columns} (survives : Survives nodes before cur node) :
    Refreshed differs enabled watched node cur (sync differs blank enabled watched nodes (before ++ cur :: after)) := by
  rw [sync, List.foldl_append, List.foldl_cons]
  obtain ⟨there, old, ranges⟩ := @foldl_other α V _ columns differs blank enabled watched cur.ID before
    ⟨nodes, fun id => (nodes id).isSome, [], []⟩ (Or.inr (fun other member same found isNode =>
      Option.some.inj (survives.there.symm.trans isNode) ▸ survives.first other member same))
  generalize before.foldl (take differs blank enabled watched) ⟨nodes, fun id => (nodes id).isSome, [], []⟩ = loop at there old ranges ⊢
  simp only [survives.there, Option.isSome_some] at there old
  obtain ⟨announced, stored⟩ := @sync_row_announces V columns differs enabled cur.value (watched && node.IsBold != cur.IsBold) node.Raw
  have taken : take differs blank enabled watched loop cur = { loop with
      nodes := Function.update loop.nodes cur.ID (some { node with
        IsBold := if watched then cur.IsBold else node.IsBold
        Raw := (sync_row differs enabled cur.value (watched && node.IsBold != cur.IsBold) node.Raw).1 })
      Old := Function.update loop.Old cur.ID false
      emitted := loop.emitted ++ (sync_row differs enabled cur.value (watched && node.IsBold != cur.IsBold) node.Raw).2.map
        (fun range => (cur.ID, range)) } := by
    simp only [take, there, old, survives.fits, Bool.and_self, if_true]
  obtain ⟨there', -, ranges'⟩ := @foldl_other α V _ columns differs blank enabled watched cur.ID after
    (take differs blank enabled watched loop cur) (Or.inl (by rw [taken]; simp))
  refine ⟨?_, _, there'.trans ((congrArg (fun loop => loop.nodes cur.ID) taken).trans (Function.update_self _ _ _)), stored⟩
  have emitted : (take differs blank enabled watched loop cur).ranges cur.ID =
      (sync_row differs enabled cur.value (watched && node.IsBold != cur.IsBold) node.Raw).2 := by
    have none_ : loop.ranges cur.ID = [] := ranges
    rw [taken, Loop.ranges, List.filterMap_append]
    simpa [Loop.ranges, List.filterMap_map, Function.comp_def] using none_
  rw [ranges', emitted]
  exact announced

/-- In a list and in a tree, a row that is still there has exactly its changed cells announced, and stores what has changed. -/
theorem changes_announced (differs : V → V → Bool) (blank : V) (enabled : Fin columns → Bool) (nodes : α → Option (Node α V columns)) :
    (∀ (before after : List (ListEntry α V)) (cur : ListEntry α V) (node : Node α V columns),
      Survives nodes (before.map ListEntry.entry) cur.entry node →
        Refreshed differs enabled false node cur.entry (list_sync differs blank enabled nodes (before ++ cur :: after))) ∧
    ∀ (m_ColumnKeys : Fin columns → String) (before after : List (TreeEntry α V)) (cur : TreeEntry α V) (node : Node α V columns),
      Survives nodes (before.map (TreeEntry.entry m_ColumnKeys)) (cur.entry m_ColumnKeys) node →
        Refreshed differs enabled true node (cur.entry m_ColumnKeys)
          (tree_sync differs blank enabled m_ColumnKeys nodes (before ++ cur :: after)) := by
  refine ⟨fun before after cur node survives => ?_, fun m_ColumnKeys before after cur node survives => ?_⟩
  · rw [list_sync, List.map_append, List.map_cons]
    exact sync_refreshed survives
  · rw [tree_sync, List.map_append, List.map_cons]
    exact sync_refreshed survives

/-- A row of three columns with the middle one hidden. -/
def three (values : Fin 3 → Nat) (_ : Nat) : Option (Node Nat Nat 3) := some ⟨false, [], values⟩

theorem changes_announced_three : Refreshed (fun left right : Nat => left != right) ![true, false, true] false ⟨false, [], ![1, 1, 1]⟩
    (⟨7, false, fun _ => 2⟩ : ListEntry Nat Nat).entry
    (list_sync (fun left right => left != right) 0 ![true, false, true] (three ![1, 1, 1]) [⟨7, false, fun _ => 2⟩]) :=
  (changes_announced (fun left right => left != right) 0 ![true, false, true] (three ![1, 1, 1])).1 [] [] ⟨7, false, fun _ => 2⟩ _
    ⟨rfl, rfl, by simp⟩

/-- A cell of a hidden column is not stored with its new value. -/
theorem hidden_cell_kept : ¬ ∀ column : Fin 3, ((list_sync (fun left right : Nat => left != right) 0 ![true, false, true]
    (three ![1, 1, 1]) [⟨7, false, fun _ => 2⟩]).nodes 7).map (fun node => node.Raw column) = some 2 := by
  intro stored
  exact absurd (stored 1) (by decide)

end Models
end TaskExplorer.ChangedRanges
