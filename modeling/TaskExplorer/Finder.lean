import Mathlib

/-!
# The next row that matches

`CFinder` goes from the current row of a tree to the next row that matches, or to the one
before: below the current row, among the rows behind it, and then, from the innermost parent
on, at the row next to each parent. A row is given by the numbers of the rows on the way to it.
-/

namespace TaskExplorer.Finder

abbrev Path := List Nat

inductive Row (α : Type) where
  | node (data : α) (children : List (Row α))

namespace Row

variable {α : Type}

def data : Row α → α
  | .node data _ => data

def children : Row α → List (Row α)
  | .node _ children => children

end Row

section
variable {α : Type} (MatchRow : α → Bool)

/-! ## The walk -/

mutual

/-- What is found in a row: the row itself, or a row below it. -/
def find_row (reverse : Bool) : Row α → Option Path
  | .node data children => if MatchRow data then some [] else find_rows reverse 0 children

/-- The loop over rows of one parent, of which the first has the number `first`. -/
def find_rows (reverse : Bool) : Nat → List (Row α) → Option Path
  | _, [] => none
  | first, row :: rest =>
    let here := (find_row reverse row).map (first :: ·)
    let there := find_rows reverse (first + 1) rest
    if reverse then there.or here else here.or there

end

/-- `FindRow` of a parent, from a row on or down to the first one. -/
def FindRowIn (reverse : Bool) (rows : List (Row α)) (start : Nat) : Option Path :=
  if reverse then find_rows MatchRow reverse 0 (rows.take (start + 1)) else find_rows MatchRow reverse start (rows.drop start)

/-- The number of the row next to another one. -/
def next_to (reverse : Bool) (row : Nat) : Option Nat := if reverse then (if row = 0 then none else some (row - 1)) else some (row + 1)

/-- All rows below a row are searched. -/
def find_below (reverse : Bool) (rows : List (Row α)) (row : Nat) : Option Path :=
  rows[row]?.bind fun found => (find_rows MatchRow reverse 0 found.children).map (row :: ·)

/-- From the row next to a parent: first what is below it, then the row itself and those behind it. -/
def next_sibling (reverse : Bool) (rows : List (Row α)) (row : Nat) : Option Path :=
  match next_to reverse row with
  | some sibling => if sibling < rows.length then (find_below MatchRow reverse rows sibling).or (FindRowIn MatchRow reverse rows sibling) else none
  | none => none

/-- From a row on; of a cell in the first column there are rows below. -/
def walk (reverse below : Bool) : List (Row α) → Path → Option Path
  | _, [] => none
  | rows, [row] =>
    (if below then find_below MatchRow reverse rows row else none).or ((next_to reverse row).bind (FindRowIn MatchRow reverse rows))
  | rows, row :: next :: path =>
    (rows[row]?.bind fun parent => (walk reverse below parent.children (next :: path)).map (row :: ·)).or (next_sibling MatchRow reverse rows row)

/-- `FindRow`; the current index has a row and a column. Without one the search begins at the first row, as at a sibling. -/
def FindRow (tree : List (Row α)) (reverse : Bool) : Option (Path × Nat) → Option Path
  | some (row, column) => walk MatchRow reverse (column = 0) tree row
  | none => (find_below MatchRow reverse tree 0).or (FindRowIn MatchRow reverse tree 0)

/-! ## The rows as a tree shows them -/

def at_row (row : Nat) (entries : List (Path × α)) : List (Path × α) := entries.map fun entry => (row :: entry.1, entry.2)

mutual

/-- A row and all rows below it, the rows of each parent from the first or from the last on. -/
def visit_row (reverse : Bool) : Row α → List (Path × α)
  | .node data children => ([], data) :: visit_rows reverse 0 children

def visit_rows (reverse : Bool) : Nat → List (Row α) → List (Path × α)
  | _, [] => []
  | first, row :: rest =>
    let here := at_row first (visit_row reverse row)
    let there := visit_rows reverse (first + 1) rest
    if reverse then there ++ here else here ++ there

end

/-- All rows of a fully expanded tree from top to bottom. -/
def shown (tree : List (Row α)) : List (Path × α) := visit_rows false 0 tree

def after (tree : List (Row α)) (row : Path) : List (Path × α) := ((shown tree).dropWhile fun entry => entry.1 ≠ row).tail

def before (tree : List (Row α)) (row : Path) : List (Path × α) := (shown tree).takeWhile fun entry => entry.1 ≠ row

def matching (entry : Path × α) : Bool := MatchRow entry.2

def first_match (entries : List (Path × α)) : Option Path := (entries.find? (matching MatchRow)).map Prod.fst

/-- The row with a path. -/
def row_at : List (Row α) → Path → Option (Row α)
  | _, [] => none
  | rows, [row] => rows[row]?
  | rows, row :: next :: path => rows[row]?.bind fun parent => row_at parent.children (next :: path)

/-! ## What is expected -/

/-- The first row that matches after the current one, or of all. -/
def right_next (tree : List (Row α)) : Option (Path × Nat) → Option Path
  | some (row, _) => first_match MatchRow (after tree row)
  | none => first_match MatchRow (shown tree)

/-- The last row that matches before the current one. -/
def right_previous (tree : List (Row α)) (row : Path) : Option Path := first_match MatchRow (before tree row).reverse

/-- No row below a row matches. -/
def NothingBelow (tree : List (Row α)) (row : Path) : Prop :=
  ∀ entry ∈ shown tree, matching MatchRow entry = true → row <+: entry.1 → entry.1 = row

/-- A row is next to a parent of another one, behind it. -/
def IsBehindParent (row other : Path) : Prop :=
  ∃ upper number lower, lower ≠ [] ∧ row = upper ++ number :: lower ∧ other = upper ++ [number + 1]

/-- A row is next to a parent of another one, before it. -/
def IsBeforeParent (row other : Path) : Prop :=
  ∃ upper number lower, lower ≠ [] ∧ row = upper ++ (number + 1) :: lower ∧ other = upper ++ [number]

/-- The row that comes next is not below a cell of another column than the first; and it is not next to a parent of the current row, or the very
first row, with another match below it. -/
def PlainNext (tree : List (Row α)) (current : Option (Path × Nat)) : Prop :=
  ∀ next, right_next MatchRow tree current = some next →
    match current with
    | some (row, column) => (column ≠ 0 → ¬ row <+: next) ∧ (IsBehindParent row next → NothingBelow MatchRow tree next)
    | none => next = [0] → NothingBelow MatchRow tree next

/-- Nothing below the current row matches (in another column than the first that is not looked at); the row that comes before is no parent of it;
and no parent of that row that is not one of the current row matches, other than one next to a parent of the current row. -/
def PlainPrevious (tree : List (Row α)) (row : Path) (column : Nat) : Prop :=
  (column = 0 → NothingBelow MatchRow tree row) ∧
  ∀ previous, right_previous MatchRow tree row = some previous → ¬ previous <+: row ∧
    ∀ entry ∈ shown tree, matching MatchRow entry = true → entry.1 <+: previous → entry.1 ≠ previous →
      ¬ entry.1 <+: row → IsBeforeParent row entry.1

/-- The current index is one of the tree. -/
def IsCurrent (tree : List (Row α)) : Option (Path × Nat) → Prop
  | some (row, _) => ∃ found, row_at tree row = some found
  | none => True

/-- What steps forward select one after another, by a limit on their number. -/
def visits (tree : List (Row α)) : Nat → Option (Path × Nat) → List Path
  | 0, _ => []
  | steps + 1, current =>
    match FindRow MatchRow tree false current with
    | some row => row :: visits tree steps (some (row, 0))
    | none => []

/-- The rows that match, from top to bottom. -/
def matching_rows (tree : List (Row α)) : List Path := ((shown tree).filter (matching MatchRow)).map Prod.fst

def matching_after (tree : List (Row α)) : Option (Path × Nat) → List Path
  | some (row, _) => ((after tree row).filter (matching MatchRow)).map Prod.fst
  | none => matching_rows MatchRow tree

/-! ## What is found -/

variable {MatchRow} {reverse : Bool}

theorem first_match_append (entries others : List (Path × α)) :
    first_match MatchRow (entries ++ others) = (first_match MatchRow entries).or (first_match MatchRow others) := by
  rw [first_match, first_match, first_match, List.find?_append, Option.map_or]

theorem first_match_at_row (row : Nat) (entries : List (Path × α)) :
    first_match MatchRow (at_row row entries) = (first_match MatchRow entries).map (row :: ·) := by
  rw [first_match, first_match, at_row, List.find?_map, Option.map_map, Option.map_map]
  rfl

mutual

theorem find_row_eq (row : Row α) : find_row MatchRow reverse row = first_match MatchRow (visit_row reverse row) := by
  cases row with
  | node data children =>
    rw [find_row, visit_row, first_match, List.find?_cons]
    by_cases isMatch : MatchRow data = true
    · rw [if_pos isMatch]
      simp [matching, isMatch]
    · rw [if_neg isMatch, find_rows_eq 0 children]
      simp [matching, isMatch, first_match]

theorem find_rows_eq (first : Nat) (rows : List (Row α)) :
    find_rows MatchRow reverse first rows = first_match MatchRow (visit_rows reverse first rows) := by
  cases rows with
  | nil => rw [find_rows, visit_rows]; rfl
  | cons row rest =>
    rw [find_rows, visit_rows, find_row_eq row, find_rows_eq (first + 1) rest, ← first_match_at_row, ← first_match_append, ← first_match_append]
    cases reverse <;> rfl

end

theorem mem_first_match {entries : List (Path × α)} {row : Path} (found : first_match MatchRow entries = some row) :
    ∃ entry ∈ entries, matching MatchRow entry = true ∧ entry.1 = row := by
  obtain ⟨entry, first, rfl⟩ := Option.map_eq_some_iff.mp found
  exact ⟨entry, List.mem_of_find?_eq_some first, List.find?_some first, rfl⟩

theorem first_match_none {entries : List (Path × α)} :
    first_match MatchRow entries = none ↔ ∀ entry ∈ entries, matching MatchRow entry ≠ true := by
  rw [first_match, Option.map_eq_none_iff, List.find?_eq_none]

/-! ## Places -/

variable {rows tree : List (Row α)} {entry : Path × α} {row : Nat} {found : Row α} {path : Path}
  {current : Option (Path × Nat)}

theorem visit_rows_number {first : Nat} (member : entry ∈ visit_rows reverse first rows) :
    ∃ number rest, entry.1 = number :: rest ∧ first ≤ number ∧ number < first + rows.length := by
  induction rows generalizing first with
  | nil => rw [visit_rows] at member; cases member
  | cons row rows ih =>
    have either : entry ∈ at_row first (visit_row reverse row) ∨ entry ∈ visit_rows reverse (first + 1) rows := by
      rw [visit_rows] at member
      cases reverse
      · exact List.mem_append.mp member
      · exact (List.mem_append.mp member).symm
    rcases either with here | there
    · obtain ⟨inner, -, rfl⟩ := List.mem_map.mp here
      exact ⟨first, inner.1, rfl, Nat.le_refl _, by rw [List.length_cons]; omega⟩
    · obtain ⟨number, rest, same, least, most⟩ := ih there
      exact ⟨number, rest, same, by omega, by rw [List.length_cons]; omega⟩

theorem visit_rows_append (first : Nat) (rows others : List (Row α)) :
    visit_rows reverse first (rows ++ others) = if reverse then visit_rows reverse (first + rows.length) others ++ visit_rows reverse first rows
      else visit_rows reverse first rows ++ visit_rows reverse (first + rows.length) others := by
  induction rows generalizing first with
  | nil => cases reverse <;> simp [visit_rows]
  | cons row rows ih =>
    rw [List.cons_append, visit_rows, visit_rows, ih, List.length_cons, Nat.add_assoc, Nat.add_comm 1]
    cases reverse <;> simp

/-- The rows after one, by its path. -/
def after_rows : List (Row α) → Path → List (Path × α)
  | _, [] => []
  | rows, [row] =>
    ((rows[row]?.map fun found => at_row row (visit_rows false 0 found.children)).getD []) ++ visit_rows false (row + 1) (rows.drop (row + 1))
  | rows, row :: next :: path =>
    ((rows[row]?.map fun parent => at_row row (after_rows parent.children (next :: path))).getD []) ++ visit_rows false (row + 1) (rows.drop (row + 1))

/-- The rows before one, by its path. -/
def before_rows : List (Row α) → Path → List (Path × α)
  | _, [] => []
  | rows, [row] => visit_rows false 0 (rows.take row)
  | rows, row :: next :: path =>
    visit_rows false 0 (rows.take row) ++
      (rows[row]?.map fun parent => ([row], parent.data) :: at_row row (before_rows parent.children (next :: path))).getD []

theorem visit_row_eq (row : Row α) : visit_row reverse row = ([], row.data) :: visit_rows reverse 0 row.children := by
  cases row
  rw [visit_row]
  rfl

theorem split_rows (here : rows[row]? = some found) :
    row < rows.length ∧ rows = rows.take row ++ found :: rows.drop (row + 1) := by
  obtain ⟨inside, same⟩ := List.getElem?_eq_some_iff.mp here
  refine ⟨inside, ?_⟩
  rw [← same, List.getElem_cons_drop, List.take_append_drop]

theorem visit_forward (here : rows[row]? = some found) :
    visit_rows false 0 rows = visit_rows false 0 (rows.take row) ++
      (([row], found.data) :: at_row row (visit_rows false 0 found.children)) ++ visit_rows false (row + 1) (rows.drop (row + 1)) := by
  obtain ⟨inside, split⟩ := split_rows here
  conv_lhs => rw [split]
  rw [visit_rows_append, visit_rows, visit_row_eq, List.length_take, Nat.min_eq_left (Nat.le_of_lt inside), Nat.zero_add]
  simp [at_row]

theorem shown_split (here : row_at tree path = some found) :
    shown tree = before_rows tree path ++ (path, found.data) :: after_rows tree path := by
  induction path generalizing tree with
  | nil => cases here
  | cons row path ih =>
    cases path with
    | nil =>
      have there : tree[row]? = some found := here
      rw [shown, visit_forward there, before_rows, after_rows, there]
      simp
    | cons next path =>
      obtain ⟨parent, there, inner⟩ := Option.bind_eq_some_iff.mp here
      have below := ih inner
      rw [shown] at below
      rw [shown, visit_forward there, before_rows, after_rows, there, below]
      simp [at_row]

theorem before_rows_apart (member : entry ∈ before_rows tree path) : ¬ path <+: entry.1 := by
  induction path generalizing tree entry with
  | nil => cases member
  | cons row path ih =>
    have earlier : ∀ entry ∈ visit_rows false 0 (tree.take row), ∀ lower, ¬ row :: lower <+: entry.1 := by
      intro entry member lower above
      obtain ⟨number, rest, isNumber, -, small⟩ := visit_rows_number member
      rw [isNumber] at above
      have same := (List.cons_prefix_cons.mp above).1
      rw [List.length_take] at small
      omega
    cases path with
    | nil => exact earlier entry member []
    | cons next path =>
      rw [before_rows] at member
      rcases List.mem_append.mp member with first | second
      · exact earlier entry first _
      · cases there : tree[row]? with
        | none =>
          rw [there] at second
          cases second
        | some parent =>
          rw [there] at second
          rcases List.mem_cons.mp second with rfl | inner
          · exact fun above => absurd above.length_le (by simp)
          · obtain ⟨lower, isLower, rfl⟩ := List.mem_map.mp inner
            exact fun above => ih isLower (List.cons_prefix_cons.mp above).2

theorem before_rows_ne (member : entry ∈ before_rows tree path) : entry.1 ≠ path := by
  rintro same
  exact before_rows_apart member (same ▸ List.prefix_rfl)

theorem before_eq (here : row_at tree path = some found) : before tree path = before_rows tree path := by
  rw [before, shown_split here, List.takeWhile_append_of_pos fun entry member => by simpa using before_rows_ne member]
  simp

theorem after_eq (here : row_at tree path = some found) : after tree path = after_rows tree path := by
  rw [after, shown_split here, List.dropWhile_append_of_pos fun entry member => by simpa using before_rows_ne member]
  simp

variable {lower : Path}

theorem mem_shown (here : tree[row]? = some found) (isEntry : entry.1 = row :: lower) :
    entry ∈ shown tree ↔ (lower, entry.2) ∈ visit_row false found := by
  obtain ⟨inside, -⟩ := split_rows here
  have isPair : entry = (row :: lower, entry.2) := Prod.ext isEntry rfl
  rw [shown, visit_forward here, List.mem_append, List.mem_append, visit_row_eq, isPair]
  constructor
  · rintro ((first | here) | last)
    · obtain ⟨number, rest, isNumber, -, small⟩ := visit_rows_number first
      rw [List.length_take] at small
      have same := (List.cons.inj isNumber).1
      omega
    · rcases List.mem_cons.mp here with same | inner
      · obtain ⟨isRow, isData⟩ := Prod.mk.inj same
        rw [(List.cons.inj isRow).2, isData]
        exact List.mem_cons_self
      · obtain ⟨below, member, same⟩ := List.mem_map.mp inner
        obtain ⟨isRow, isData⟩ := Prod.mk.inj same
        rw [← (List.cons.inj isRow).2, ← isData]
        exact List.mem_cons_of_mem _ member
    · obtain ⟨number, rest, isNumber, large, -⟩ := visit_rows_number last
      have same := (List.cons.inj isNumber).1
      omega
  · intro inner
    refine .inl (.inr ?_)
    rcases List.mem_cons.mp inner with same | member
    · obtain ⟨isRow, isData⟩ := Prod.mk.inj same
      rw [isRow, isData]
      exact List.mem_cons_self
    · exact List.mem_cons_of_mem _ (List.mem_map.mpr ⟨_, member, rfl⟩)

theorem nothing_below_iff (here : tree[row]? = some found) :
    NothingBelow MatchRow tree [row] ↔ first_match MatchRow (visit_rows false 0 found.children) = none := by
  rw [first_match_none]
  constructor
  · intro nothing entry member isMatch
    have isShown : (row :: entry.1, entry.2) ∈ shown tree := by
      rw [mem_shown here rfl, visit_row_eq]
      exact List.mem_cons_of_mem _ member
    obtain ⟨number, rest, isNumber, -, -⟩ := visit_rows_number member
    have same := nothing _ isShown isMatch ⟨entry.1, rfl⟩
    rw [isNumber] at same
    cases same
  · intro none entry isShown isMatch above
    obtain ⟨lower, same⟩ := above
    have isEntry : entry.1 = row :: lower := same.symm
    rw [mem_shown here isEntry, visit_row_eq] at isShown
    rcases List.mem_cons.mp isShown with isRow | member
    · rw [isEntry, (Prod.mk.inj isRow).1]
    · exact absurd isMatch (none (lower, entry.2) member)

theorem nothing_below_cons {parent : Row α} (here : tree[row]? = some parent) (deeper : lower ≠ []) :
    NothingBelow MatchRow tree (row :: lower) ↔ NothingBelow MatchRow parent.children lower := by
  constructor
  · intro nothing entry member isMatch above
    have isShown : (row :: entry.1, entry.2) ∈ shown tree := by
      rw [mem_shown here rfl, visit_row_eq]
      exact List.mem_cons_of_mem _ member
    exact (List.cons.inj (nothing _ isShown isMatch (List.cons_prefix_cons.mpr ⟨rfl, above⟩))).2
  · intro nothing entry isShown isMatch above
    obtain ⟨more, same⟩ := above
    have isEntry : entry.1 = row :: (lower ++ more) := same.symm
    rw [mem_shown here isEntry, visit_row_eq] at isShown
    rcases List.mem_cons.mp isShown with isRow | member
    · exact absurd (List.append_eq_nil_iff.mp (Prod.mk.inj isRow).1).1 deeper
    · have same : lower ++ more = lower := nothing (lower ++ more, entry.2) member isMatch ⟨more, rfl⟩
      rw [isEntry, same]

/-! ## Forward -/

theorem find_below_eq (rows : List (Row α)) (row : Nat) :
    find_below MatchRow reverse rows row =
      rows[row]?.bind fun found => (first_match MatchRow (visit_rows reverse 0 found.children)).map (row :: ·) := by
  simp only [find_below, find_rows_eq]

theorem from_forward (rows : List (Row α)) (row : Nat) :
    (find_below MatchRow false rows row).or (FindRowIn MatchRow false rows row) = first_match MatchRow (visit_rows false row (rows.drop row)) ↔
      (first_match MatchRow (visit_rows false row (rows.drop row)) = some [row] → NothingBelow MatchRow rows [row]) := by
  have start : FindRowIn MatchRow false rows row = first_match MatchRow (visit_rows false row (rows.drop row)) := find_rows_eq _ _
  cases there : rows[row]? with
  | none =>
    have behind := List.getElem?_eq_none_iff.mp there
    rw [find_below_eq, there, start, List.drop_eq_nil_of_le behind, visit_rows]
    exact iff_of_true rfl (fun impossible => by cases impossible)
  | some found =>
    obtain ⟨inside, -⟩ := split_rows there
    have begins : rows.drop row = found :: rows.drop (row + 1) := by
      rw [← List.getElem_cons_drop inside, (List.getElem?_eq_some_iff.mp there).2]
    rw [find_below_eq, there, Option.bind_some, start, nothing_below_iff there, begins, visit_rows, visit_row_eq]
    cases below : first_match MatchRow (visit_rows false 0 found.children) with
    | none => simp
    | some lower =>
      obtain ⟨entry, member, -, isLower⟩ := mem_first_match below
      obtain ⟨number, rest, isNumber, -, -⟩ := visit_rows_number member
      have deeper : lower ≠ [] := by
        rw [← isLower, isNumber]
        exact List.cons_ne_nil _ _
      by_cases isMatch : MatchRow found.data = true
      · simp [first_match, at_row, matching, isMatch, deeper]
      · have first : first_match MatchRow (at_row row (([], found.data) :: visit_rows false 0 found.children)) = some (row :: lower) := by
          rw [first_match_at_row, first_match, List.find?_cons_of_neg (by simpa [matching] using isMatch)]
          rw [first_match] at below
          rw [below]
          rfl
        simp [first_match_append, first, deeper]

theorem next_sibling_eq (rows : List (Row α)) (row : Nat) :
    next_sibling MatchRow false rows row = (find_below MatchRow false rows (row + 1)).or (FindRowIn MatchRow false rows (row + 1)) := by
  have start : FindRowIn MatchRow false rows (row + 1) = find_rows MatchRow false (row + 1) (rows.drop (row + 1)) := rfl
  by_cases inside : row + 1 < rows.length
  · exact if_pos inside
  · have behind : rows.length ≤ row + 1 := Nat.le_of_not_lt inside
    rw [find_below_eq, List.getElem?_eq_none behind, start, List.drop_eq_nil_of_le behind, find_rows]
    exact if_neg inside

theorem next_sibling_forward (rows : List (Row α)) (row : Nat) :
    next_sibling MatchRow false rows row = first_match MatchRow (visit_rows false (row + 1) (rows.drop (row + 1))) ↔
      (first_match MatchRow (visit_rows false (row + 1) (rows.drop (row + 1))) = some [row + 1] → NothingBelow MatchRow rows [row + 1]) := by
  rw [next_sibling_eq, from_forward]

theorem from_member (found : (find_below MatchRow false rows row).or (FindRowIn MatchRow false rows row) = some path) :
    ∃ entry ∈ visit_rows false row (rows.drop row), matching MatchRow entry = true ∧ entry.1 = path := by
  have start : FindRowIn MatchRow false rows row = first_match MatchRow (visit_rows false row (rows.drop row)) := find_rows_eq _ _
  rcases Option.or_eq_some_iff.mp found with below | ⟨-, there⟩
  · rw [find_below_eq] at below
    obtain ⟨here, isHere, inner⟩ := Option.bind_eq_some_iff.mp below
    obtain ⟨lower, isLower, rfl⟩ := Option.map_eq_some_iff.mp inner
    obtain ⟨entry, member, isMatch, rfl⟩ := mem_first_match isLower
    obtain ⟨inside, same⟩ := List.getElem?_eq_some_iff.mp isHere
    refine ⟨(row :: entry.1, entry.2), ?_, isMatch, rfl⟩
    rw [← List.getElem_cons_drop inside, same, visit_rows, visit_row_eq]
    exact List.mem_append_left _ (List.mem_map_of_mem (List.mem_cons_of_mem _ member))
  · rw [start] at there
    exact mem_first_match there

theorem behind_parent_cons {next : Path} : IsBehindParent (row :: path) (row :: next) ↔ IsBehindParent path next := by
  constructor
  · rintro ⟨upper, number, lower, some, isRow, isNext⟩
    cases upper with
    | nil =>
      simp only [List.nil_append, List.cons.injEq] at isRow isNext
      omega
    | cons first upper => exact ⟨upper, number, lower, some, (List.cons.inj isRow).2, (List.cons.inj isNext).2⟩
  · rintro ⟨upper, number, lower, some, isRow, isNext⟩
    exact ⟨row :: upper, number, lower, some, by rw [isRow]; rfl, by rw [isNext]; rfl⟩

theorem behind_parent_level {next : Path} {number : Nat} (deeper : path ≠ []) (isNext : next = number :: lower)
    (other : row < number) : IsBehindParent (row :: path) next ↔ next = [row + 1] := by
  constructor
  · rintro ⟨upper, sibling, rest, some, isRow, isSibling⟩
    cases upper with
    | nil =>
      simp only [List.nil_append, List.cons.injEq] at isRow
      rw [isSibling, isRow.1]
      rfl
    | cons first upper =>
      rw [isNext] at isSibling
      have one := (List.cons.inj isRow).1
      have two := (List.cons.inj isSibling).1
      omega
  · rintro rfl
    exact ⟨[], row, path, deeper, rfl, rfl⟩

theorem not_behind_parent (row : Nat) (next : Path) : ¬ IsBehindParent [row] next := by
  rintro ⟨upper, number, lower, some, isRow, -⟩
  cases upper with
  | nil => exact some (List.cons.inj isRow).2.symm
  | cons first upper => exact absurd (List.cons.inj isRow).2 (by simp)

theorem next_sibling_number (found : next_sibling MatchRow false rows row = some path) :
    ∃ number lower, path = number :: lower ∧ row < number := by
  rw [next_sibling_eq] at found
  obtain ⟨entry, member, -, rfl⟩ := from_member found
  obtain ⟨number, lower, isNumber, large, -⟩ := visit_rows_number member
  exact ⟨number, lower, isNumber, large⟩

/-- The walk forward from a row is right exactly when what comes next is plain. -/
theorem walk_forward (here : row_at tree path = some found) (below : Bool) :
    walk MatchRow false below tree path = first_match MatchRow (after_rows tree path) ↔
      ∀ next, first_match MatchRow (after_rows tree path) = some next →
        (below = false → ¬ path <+: next) ∧ (IsBehindParent path next → NothingBelow MatchRow tree next) := by
  induction path generalizing tree with
  | nil => cases here
  | cons row path ih =>
    have later : ∀ next, first_match MatchRow (visit_rows false (row + 1) (tree.drop (row + 1))) = some next →
        ∃ number lower, next = number :: lower ∧ row < number := by
      intro next isNext
      obtain ⟨entry, member, -, rfl⟩ := mem_first_match isNext
      obtain ⟨number, lower, isNumber, large, -⟩ := visit_rows_number member
      exact ⟨number, lower, isNumber, large⟩
    cases path with
    | nil =>
      have there : tree[row]? = some found := here
      have start : (next_to false row).bind (FindRowIn MatchRow false tree) = first_match MatchRow (visit_rows false (row + 1) (tree.drop (row + 1))) :=
        find_rows_eq _ _
      rw [walk, after_rows, start, find_below_eq, there, first_match_append]
      simp only [Option.bind_some, Option.map_some, Option.getD_some, first_match_at_row, not_behind_parent, false_implies, and_true]
      cases below with
      | true => simp
      | false =>
        cases inner : first_match MatchRow (visit_rows false 0 found.children) with
        | none =>
          refine iff_of_true rfl fun next isNext _ above => ?_
          obtain ⟨number, lower, rfl, large⟩ := later next (by simpa using isNext)
          have same := (List.cons_prefix_cons.mp above).1
          omega
        | some lower =>
          refine iff_of_false (fun same => ?_) (fun plain => plain _ rfl rfl ⟨lower, rfl⟩)
          obtain ⟨number, rest, isNumber, large⟩ := later (row :: lower) (by simpa using same)
          have first := (List.cons.inj isNumber).1
          omega
    | cons next path =>
      obtain ⟨parent, there, inner⟩ := Option.bind_eq_some_iff.mp here
      have below_iff := ih inner
      rw [walk, after_rows, there, first_match_append]
      simp only [Option.bind_some, Option.map_some, Option.getD_some, first_match_at_row]
      cases right : first_match MatchRow (after_rows parent.children (next :: path)) with
      | none =>
        -- Nothing is left below the parent, and nothing is found there.
        have none : walk MatchRow false below parent.children (next :: path) = none := by
          rw [below_iff.mpr (fun next isNext => by rw [right] at isNext; cases isNext), right]
        rw [none, Option.map_none, Option.none_or, Option.none_or, next_sibling_forward]
        constructor
        · intro plain other isNext
          obtain ⟨number, lower, isNumber, large⟩ := later other isNext
          refine ⟨fun _ above => ?_, fun behind => ?_⟩
          · rw [isNumber] at above
            have same := (List.cons_prefix_cons.mp above).1
            omega
          · obtain rfl := (behind_parent_level (List.cons_ne_nil _ _) isNumber large).mp behind
            exact plain isNext
        · intro plain isNext
          exact (plain _ isNext).2 ((behind_parent_level (List.cons_ne_nil _ _) rfl (Nat.lt_succ_self row)).mpr rfl)
      | some lower =>
        have deeper : lower ≠ [] := by
          rintro rfl
          obtain ⟨entry, member, -, isEmpty⟩ := mem_first_match right
          have split := shown_split inner
          have isShown : entry ∈ shown parent.children := by
            rw [split]
            exact List.mem_append_right _ (List.mem_cons_of_mem _ member)
          obtain ⟨number, rest, isNumber, -, -⟩ := visit_rows_number isShown
          rw [isNumber] at isEmpty
          cases isEmpty
        have same : ((walk MatchRow false below parent.children (next :: path)).map (row :: ·)).or (next_sibling MatchRow false tree row) =
            some (row :: lower) ↔ walk MatchRow false below parent.children (next :: path) = some lower := by
          cases found : walk MatchRow false below parent.children (next :: path) with
          | none =>
            refine iff_of_false (fun sibling => ?_) (fun impossible => by cases impossible)
            obtain ⟨number, rest, isNumber, large⟩ := next_sibling_number (by simpa using sibling)
            have first := (List.cons.inj isNumber).1
            omega
          | some other => simp
        rw [right] at below_iff
        rw [Option.map_some, Option.some_or, same, below_iff]
        simp only [Option.some.injEq, forall_eq', List.cons_prefix_cons, true_and, behind_parent_cons, nothing_below_cons there deeper]

theorem walk_later {below : Bool} {next : Path} (found : walk MatchRow false below tree path = some next) :
    ∃ entry ∈ after_rows tree path, matching MatchRow entry = true ∧ entry.1 = next := by
  induction path generalizing tree next with
  | nil => cases found
  | cons row path ih =>
    have start : FindRowIn MatchRow false tree (row + 1) = first_match MatchRow (visit_rows false (row + 1) (tree.drop (row + 1))) := find_rows_eq _ _
    cases path with
    | nil =>
      rw [after_rows]
      rcases Option.or_eq_some_iff.mp found with isBelow | ⟨-, behind⟩
      · split_ifs at isBelow
        rw [find_below_eq] at isBelow
        obtain ⟨here, isHere, inner⟩ := Option.bind_eq_some_iff.mp isBelow
        obtain ⟨lower, isLower, rfl⟩ := Option.map_eq_some_iff.mp inner
        obtain ⟨entry, member, isMatch, rfl⟩ := mem_first_match isLower
        refine ⟨(row :: entry.1, entry.2), List.mem_append_left _ ?_, isMatch, rfl⟩
        rw [isHere]
        exact List.mem_map_of_mem member
      · obtain ⟨entry, member, isMatch, rfl⟩ := mem_first_match (start.symm.trans behind)
        exact ⟨entry, List.mem_append_right _ member, isMatch, rfl⟩
    | cons number path =>
      rw [after_rows]
      rcases Option.or_eq_some_iff.mp found with inner | ⟨-, behind⟩
      · obtain ⟨parent, isParent, isInner⟩ := Option.bind_eq_some_iff.mp inner
        obtain ⟨lower, isLower, rfl⟩ := Option.map_eq_some_iff.mp isInner
        obtain ⟨entry, member, isMatch, rfl⟩ := ih isLower
        refine ⟨(row :: entry.1, entry.2), List.mem_append_left _ ?_, isMatch, rfl⟩
        rw [isParent]
        exact List.mem_map_of_mem member
      · rw [next_sibling_eq] at behind
        obtain ⟨entry, member, isMatch, rfl⟩ := from_member behind
        exact ⟨entry, List.mem_append_right _ member, isMatch, rfl⟩

/-! ## Backward -/

theorem visit_number {first : Nat} (found : first_match MatchRow (visit_rows reverse first rows) = some path) :
    ∃ number lower, path = number :: lower ∧ first ≤ number ∧ number < first + rows.length := by
  obtain ⟨entry, member, -, rfl⟩ := mem_first_match found
  exact visit_rows_number member

theorem back_number {first : Nat} (found : first_match MatchRow (visit_rows false first rows).reverse = some path) :
    ∃ number lower, path = number :: lower ∧ first ≤ number ∧ number < first + rows.length := by
  obtain ⟨entry, member, -, rfl⟩ := mem_first_match found
  exact visit_rows_number (List.mem_reverse.mp member)

theorem back_row (number : Nat) (row : Row α) :
    first_match MatchRow (at_row number (visit_row false row)).reverse =
      ((first_match MatchRow (visit_rows false 0 row.children).reverse).map (number :: ·)).or (if MatchRow row.data then some [number] else none) := by
  have one : first_match MatchRow [([number], row.data)] = if MatchRow row.data then some [number] else none := by
    by_cases isMatch : MatchRow row.data = true <;> simp [first_match, matching, isMatch]
  rw [visit_row_eq, at_row, List.map_cons, List.reverse_cons, ← List.map_reverse, first_match_append, one]
  congr 1
  exact first_match_at_row number _

theorem forward_row (number : Nat) (row : Row α) :
    first_match MatchRow (at_row number (visit_row reverse row)) =
      if MatchRow row.data then some [number] else (first_match MatchRow (visit_rows reverse 0 row.children)).map (number :: ·) := by
  rw [first_match_at_row, visit_row_eq]
  by_cases isMatch : MatchRow row.data = true <;> simp [first_match, matching, isMatch]

theorem prefix_singleton {number : Nat} (above : number :: lower <+: [row]) : number :: lower = [row] := by
  obtain ⟨rfl, rest⟩ := List.cons_prefix_cons.mp above
  rw [List.prefix_nil.mp rest]

mutual

theorem children_backward (row : Row α) :
    first_match MatchRow (visit_rows true 0 row.children) = first_match MatchRow (visit_rows false 0 row.children).reverse ↔
      ∀ path, first_match MatchRow (visit_rows false 0 row.children).reverse = some path →
        ∀ entry ∈ visit_rows false 0 row.children, matching MatchRow entry = true → entry.1 <+: path → entry.1 = path := by
  cases row with
  | node data children => exact rows_backward 0 children

theorem rows_backward (first : Nat) (rows : List (Row α)) :
    first_match MatchRow (visit_rows true first rows) = first_match MatchRow (visit_rows false first rows).reverse ↔
      ∀ path, first_match MatchRow (visit_rows false first rows).reverse = some path →
        ∀ entry ∈ visit_rows false first rows, matching MatchRow entry = true → entry.1 <+: path → entry.1 = path := by
  cases rows with
  | nil => simp [visit_rows, first_match]
  | cons row rest =>
    have inner := children_backward row
    have outer := rows_backward (first + 1) rest
    have forth : first_match MatchRow (visit_rows true first (row :: rest)) =
        (first_match MatchRow (visit_rows true (first + 1) rest)).or (first_match MatchRow (at_row first (visit_row true row))) := by
      rw [visit_rows, ← first_match_append]
      rfl
    have entries : visit_rows false first (row :: rest) = at_row first (visit_row false row) ++ visit_rows false (first + 1) rest := by
      rw [visit_rows]
      rfl
    rw [forth, forward_row, entries, List.reverse_append, first_match_append, back_row]
    cases last : first_match MatchRow (visit_rows false (first + 1) rest).reverse with
    | some path =>
      -- What is looked for is in a row behind this one.
      obtain ⟨number, lower, isNumber, large, -⟩ := back_number last
      rw [last] at outer
      have same : (first_match MatchRow (visit_rows true (first + 1) rest)).or (if MatchRow row.data then some [first] else
          (first_match MatchRow (visit_rows true 0 row.children)).map (first :: ·)) = some path ↔
          first_match MatchRow (visit_rows true (first + 1) rest) = some path := by
        cases found : first_match MatchRow (visit_rows true (first + 1) rest) with
        | some other => simp
        | none =>
          rw [isNumber]
          refine iff_of_false (fun impossible => ?_) (fun impossible => by cases impossible)
          rw [Option.none_or] at impossible
          split_ifs at impossible with isMatch
          · have first := (List.cons.inj (Option.some.inj impossible)).1
            omega
          · obtain ⟨below, -, isBelow⟩ := Option.map_eq_some_iff.mp impossible
            have first := (List.cons.inj isBelow).1
            omega
      rw [Option.some_or, same, outer]
      simp only [Option.some.injEq, forall_eq', List.mem_append]
      constructor
      · rintro plain entry (here | there) isMatch above
        · obtain ⟨below, -, rfl⟩ := List.mem_map.mp here
          rw [isNumber] at above
          have first := (List.cons_prefix_cons.mp above).1
          omega
        · exact plain entry there isMatch above
      · exact fun plain entry there => plain entry (.inr there)
    | none =>
      have notFound : first_match MatchRow (visit_rows true (first + 1) rest) = none := by
        rw [outer.mpr (fun path found => by rw [last] at found; cases found), last]
      have notLater : ∀ entry ∈ visit_rows false (first + 1) rest, matching MatchRow entry ≠ true := by
        intro entry member
        exact first_match_none.mp last entry (List.mem_reverse.mpr member)
      rw [notFound, Option.none_or, Option.none_or]
      cases below : first_match MatchRow (visit_rows false 0 row.children).reverse with
      | none =>
        have noneBelow : first_match MatchRow (visit_rows true 0 row.children) = none := by
          rw [inner.mpr (fun path found => by rw [below] at found; cases found), below]
        rw [noneBelow]
        refine iff_of_true rfl fun path found entry member isMatch above => ?_
        rw [Option.map_none, Option.none_or] at found
        split_ifs at found
        obtain rfl := Option.some.inj found
        rcases List.mem_append.mp member with here | there
        · obtain ⟨lower, -, rfl⟩ := List.mem_map.mp here
          exact prefix_singleton above
        · exact absurd isMatch (notLater entry there)
      | some lower =>
        obtain ⟨number, rest', isNumber, -, -⟩ := back_number below
        rw [below] at inner
        rw [Option.map_some, Option.some_or]
        by_cases isMatch : MatchRow row.data = true
        · -- The row itself matches, and is found before what is below it.
          rw [if_pos isMatch]
          refine iff_of_false (fun same => ?_) (fun plain => ?_)
          · rw [isNumber] at same
            cases same
          · have member : ([first], row.data) ∈ at_row first (visit_row false row) ++ visit_rows false (first + 1) rest := by
              rw [visit_row_eq]
              exact List.mem_append_left _ List.mem_cons_self
            have same := plain _ rfl _ member isMatch (List.cons_prefix_cons.mpr ⟨rfl, List.nil_prefix⟩)
            rw [isNumber] at same
            cases same
        · rw [if_neg isMatch]
          have same : (first_match MatchRow (visit_rows true 0 row.children)).map (first :: ·) = some (first :: lower) ↔
              first_match MatchRow (visit_rows true 0 row.children) = some lower := by
            cases first_match MatchRow (visit_rows true 0 row.children) <;> simp
          rw [same, inner]
          simp only [Option.some.injEq, forall_eq']
          constructor
          · intro plain entry member isEntry above
            rcases List.mem_append.mp member with here | there
            · rw [visit_row_eq] at here
              obtain ⟨inside, isInside, rfl⟩ := List.mem_map.mp here
              rcases List.mem_cons.mp isInside with rfl | deeper
              · exact absurd isEntry isMatch
              · exact congrArg (first :: ·) (plain inside deeper isEntry (List.cons_prefix_cons.mp above).2)
            · exact absurd isEntry (notLater entry there)
          · intro plain entry member isEntry above
            have among : (first :: entry.1, entry.2) ∈ at_row first (visit_row false row) ++ visit_rows false (first + 1) rest := by
              rw [visit_row_eq]
              exact List.mem_append_left _ (List.mem_cons_of_mem _ (List.mem_map.mpr ⟨entry, member, rfl⟩))
            exact (List.cons.inj (plain _ among isEntry (List.cons_prefix_cons.mpr ⟨rfl, above⟩))).2

end

theorem take_succ (here : rows[row]? = some found) : rows.take (row + 1) = rows.take row ++ [found] := by
  rw [List.take_add_one, here]
  rfl

theorem visit_take (here : rows[row]? = some found) :
    visit_rows true 0 (rows.take (row + 1)) = at_row row (visit_row true found) ++ visit_rows true 0 (rows.take row) ∧
      visit_rows false 0 (rows.take (row + 1)) = visit_rows false 0 (rows.take row) ++ at_row row (visit_row false found) := by
  have inside := (split_rows here).1
  have single (reverse : Bool) : visit_rows reverse (0 + (rows.take row).length) [found] = at_row row (visit_row reverse found) := by
    rw [visit_rows, visit_rows, List.length_take, Nat.min_eq_left (Nat.le_of_lt inside), Nat.zero_add]
    cases reverse <;> simp
  rw [take_succ here, visit_rows_append, visit_rows_append, single, single]
  exact ⟨rfl, rfl⟩

/-- At the row before a parent the search is right when no row that matches, but for that row itself, stands above the one to be found. -/
theorem next_sibling_backward (inside : row < rows.length) :
    next_sibling MatchRow true rows row = first_match MatchRow (visit_rows false 0 (rows.take row)).reverse ↔
      ∀ path, first_match MatchRow (visit_rows false 0 (rows.take row)).reverse = some path →
        ∀ entry ∈ visit_rows false 0 (rows.take row), matching MatchRow entry = true → entry.1 <+: path → entry.1 ≠ path →
          ∃ sibling, row = sibling + 1 ∧ entry.1 = [sibling] := by
  cases row with
  | zero =>
    rw [List.take_zero, visit_rows]
    exact iff_of_true rfl (fun path found => by cases found)
  | succ sibling =>
    obtain ⟨found, here⟩ : ∃ found, rows[sibling]? = some found := ⟨_, List.getElem?_eq_getElem (Nat.lt_of_succ_lt inside)⟩
    have next : next_sibling MatchRow true rows (sibling + 1) = (find_below MatchRow true rows sibling).or (FindRowIn MatchRow true rows sibling) := by
      rw [next_sibling, next_to, if_pos rfl, if_neg (Nat.succ_ne_zero sibling)]
      exact if_pos (Nat.lt_of_succ_lt inside)
    have start : FindRowIn MatchRow true rows sibling = first_match MatchRow (visit_rows true 0 (rows.take (sibling + 1))) := find_rows_eq _ _
    have inner : first_match MatchRow (visit_rows true 0 found.children) = first_match MatchRow (visit_rows false 0 found.children).reverse ↔ _ :=
      children_backward found
    have before : first_match MatchRow (visit_rows true 0 (rows.take sibling)) =
        first_match MatchRow (visit_rows false 0 (rows.take sibling)).reverse ↔ _ := rows_backward 0 (rows.take sibling)
    rw [next, start, find_below_eq, here, (visit_take here).1, (visit_take here).2, first_match_append, forward_row, List.reverse_append,
      first_match_append, back_row, Option.bind_some]
    -- What stands above a row before the sibling is before it, too.
    have earlier : ∀ entry ∈ visit_rows false 0 (rows.take sibling), ∀ lower, entry.1 ≠ sibling :: lower := by
      rintro entry member lower same
      obtain ⟨number, rest, isNumber, -, small⟩ := visit_rows_number member
      rw [isNumber, List.cons.injEq] at same
      rw [List.length_take] at small
      omega
    cases below : first_match MatchRow (visit_rows false 0 found.children).reverse with
    | some lower =>
      obtain ⟨number, rest, isNumber, -, -⟩ := back_number below
      rw [below] at inner
      have same : ((first_match MatchRow (visit_rows true 0 found.children)).map (sibling :: ·)).or
          ((if MatchRow found.data then some [sibling] else (first_match MatchRow (visit_rows true 0 found.children)).map (sibling :: ·)).or
            (first_match MatchRow (visit_rows true 0 (rows.take sibling)))) = some (sibling :: lower) ↔
          first_match MatchRow (visit_rows true 0 found.children) = some lower := by
        cases isBelow : first_match MatchRow (visit_rows true 0 found.children) with
        | some other => simp
        | none =>
          rw [isNumber]
          refine iff_of_false (fun impossible => ?_) (fun impossible => by cases impossible)
          simp only [Option.map_none, Option.none_or, Option.or_eq_some_iff] at impossible
          rcases impossible with here | ⟨-, there⟩
          · split_ifs at here
            cases here
          · obtain ⟨other, _, isOther, -, small⟩ := visit_number there
            have first := (List.cons.inj isOther).1
            rw [List.length_take] at small
            omega
      rw [Option.map_some, Option.some_or, Option.some_or, same, inner]
      simp only [Option.some.injEq, forall_eq']
      constructor
      · intro plain entry member isEntry above other
        rcases List.mem_append.mp member with first | second
        · obtain ⟨number, rest, isNumber, -, small⟩ := visit_rows_number first
          rw [isNumber] at above
          exact absurd (isNumber.trans (congrArg (· :: rest) (List.cons_prefix_cons.mp above).1)) (earlier entry first rest)
        · rw [visit_row_eq] at second
          obtain ⟨inside, isInside, rfl⟩ := List.mem_map.mp second
          rcases List.mem_cons.mp isInside with rfl | deeper
          · exact ⟨sibling, rfl, rfl⟩
          · exact absurd (congrArg (sibling :: ·) (plain inside deeper isEntry (List.cons_prefix_cons.mp above).2)) other
      · intro plain entry member isEntry above
        by_contra other
        have among : (sibling :: entry.1, entry.2) ∈ visit_rows false 0 (rows.take sibling) ++ at_row sibling (visit_row false found) := by
          rw [visit_row_eq]
          exact List.mem_append_right _ (List.mem_cons_of_mem _ (List.mem_map.mpr ⟨entry, member, rfl⟩))
        obtain ⟨again, isAgain, isSingle⟩ := plain _ among isEntry (List.cons_prefix_cons.mpr ⟨rfl, above⟩)
          (fun same => other (List.cons.inj same).2)
        obtain ⟨number, rest, isNumber, -, -⟩ := visit_rows_number member
        rw [isNumber] at isSingle
        cases isSingle
    | none =>
      have notBelow : first_match MatchRow (visit_rows true 0 found.children) = none := by
        rw [inner.mpr (fun path found => by rw [below] at found; cases found), below]
      rw [notBelow, Option.map_none, Option.none_or, Option.none_or]
      by_cases isMatch : MatchRow found.data = true
      · rw [if_pos isMatch, Option.some_or, Option.some_or]
        refine iff_of_true rfl fun path isPath entry member _ above other => ?_
        obtain rfl := Option.some.inj isPath
        have nonempty : ∃ number lower, entry.1 = number :: lower := by
          rcases List.mem_append.mp member with first | second
          · obtain ⟨number, lower, isNumber, -⟩ := visit_rows_number first
            exact ⟨number, lower, isNumber⟩
          · obtain ⟨inside, -, rfl⟩ := List.mem_map.mp second
            exact ⟨sibling, inside.1, rfl⟩
        obtain ⟨number, lower, isNumber⟩ := nonempty
        rw [isNumber] at above other
        exact absurd (prefix_singleton above) other
      · rw [if_neg isMatch, Option.none_or, Option.none_or, before]
        refine forall₂_congr fun path isPath => ?_
        obtain ⟨number, lower, isNumber, -, small⟩ := back_number isPath
        rw [List.length_take] at small
        constructor
        · intro plain entry member isEntry above other
          rcases List.mem_append.mp member with first | second
          · exact absurd (plain entry first isEntry above) other
          · obtain ⟨inside, -, rfl⟩ := List.mem_map.mp second
            rw [isNumber] at above
            have first := (List.cons_prefix_cons.mp above).1
            omega
        · intro plain entry member isEntry above
          by_contra other
          obtain ⟨again, isAgain, isSingle⟩ := plain entry (List.mem_append_left _ member) isEntry above other
          rw [isSingle, isNumber] at above
          have first := (List.cons_prefix_cons.mp above).1
          omega

theorem back_sibling_number (found : next_sibling MatchRow true rows row = some path) :
    ∃ number lower, path = number :: lower ∧ number < row := by
  cases row with
  | zero => cases found
  | succ sibling =>
    have next : next_sibling MatchRow true rows (sibling + 1) =
        if sibling < rows.length then (find_below MatchRow true rows sibling).or (FindRowIn MatchRow true rows sibling) else none := by
      rw [next_sibling, next_to, if_pos rfl, if_neg (Nat.succ_ne_zero sibling)]
      rfl
    rw [next] at found
    split_ifs at found with inside
    rcases Option.or_eq_some_iff.mp found with below | ⟨-, there⟩
    · obtain ⟨row, -, inner⟩ := Option.bind_eq_some_iff.mp below
      obtain ⟨lower, -, rfl⟩ := Option.map_eq_some_iff.mp inner
      exact ⟨sibling, lower, rfl, Nat.lt_succ_self sibling⟩
    · have same : FindRowIn MatchRow true rows sibling = first_match MatchRow (visit_rows true 0 (rows.take (sibling + 1))) := find_rows_eq _ _
      rw [same] at there
      obtain ⟨number, lower, isNumber, -, small⟩ := visit_number there
      rw [List.length_take] at small
      exact ⟨number, lower, isNumber, by omega⟩

theorem before_parent_cons {other : Path} :
    IsBeforeParent (row :: path) (row :: other) ↔ IsBeforeParent path other := by
  constructor
  · rintro ⟨upper, number, lower, some, isRow, isOther⟩
    cases upper with
    | nil =>
      simp only [List.nil_append, List.cons.injEq] at isRow isOther
      omega
    | cons first upper => exact ⟨upper, number, lower, some, (List.cons.inj isRow).2, (List.cons.inj isOther).2⟩
  · rintro ⟨upper, number, lower, some, isRow, isOther⟩
    exact ⟨row :: upper, number, lower, some, by rw [isRow]; rfl, by rw [isOther]; rfl⟩

theorem before_parent_level {number : Nat} (deeper : path ≠ []) (other : number < row) :
    IsBeforeParent (row :: path) (number :: lower) ↔ ∃ sibling, row = sibling + 1 ∧ number :: lower = [sibling] := by
  constructor
  · rintro ⟨upper, sibling, rest, some, isRow, isSibling⟩
    cases upper with
    | nil => exact ⟨sibling, (List.cons.inj isRow).1, isSibling⟩
    | cons first upper =>
      have one := (List.cons.inj isRow).1
      have two := (List.cons.inj isSibling).1
      omega
  · rintro ⟨sibling, rfl, same⟩
    exact ⟨[], sibling, path, deeper, rfl, same⟩

theorem not_before_parent (row : Nat) (other : Path) : ¬ IsBeforeParent [row] other := by
  rintro ⟨upper, number, lower, some, isRow, -⟩
  cases upper with
  | nil => exact some (List.cons.inj isRow).2.symm
  | cons first upper => exact absurd (List.cons.inj isRow).2 (by simp)

theorem mem_shown_take {number : Nat} (inside : row < tree.length) (isEntry : entry.1 = number :: lower)
    (small : number < row) : entry ∈ shown tree ↔ entry ∈ visit_rows false 0 (tree.take row) := by
  have split : shown tree = visit_rows false 0 (tree.take row) ++ visit_rows false row (tree.drop row) := by
    rw [shown]
    conv_lhs => rw [← List.take_append_drop row tree]
    rw [visit_rows_append, List.length_take, Nat.min_eq_left (Nat.le_of_lt inside), Nat.zero_add]
    rfl
  rw [split, List.mem_append]
  refine or_iff_left fun later => ?_
  obtain ⟨other, rest, isOther, large, -⟩ := visit_rows_number later
  rw [isEntry, List.cons.injEq] at isOther
  omega

mutual

theorem mem_visit_row (row : Row α) (entry : Path × α) : entry ∈ visit_row true row ↔ entry ∈ visit_row false row := by
  cases row with
  | node data children => rw [visit_row, visit_row, List.mem_cons, List.mem_cons, mem_visit_rows 0 children]

theorem mem_visit_rows (first : Nat) (rows : List (Row α)) (entry : Path × α) :
    entry ∈ visit_rows true first rows ↔ entry ∈ visit_rows false first rows := by
  cases rows with
  | nil => rw [visit_rows, visit_rows]
  | cons row rest =>
    have here : entry ∈ at_row first (visit_row true row) ↔ entry ∈ at_row first (visit_row false row) := by
      rw [at_row, at_row, List.mem_map, List.mem_map]
      exact exists_congr fun below => and_congr_left' (mem_visit_row row below)
    have there := mem_visit_rows (first + 1) rest entry
    rw [visit_rows, visit_rows, if_pos rfl, if_neg Bool.false_ne_true, List.mem_append, List.mem_append, here, there, or_comm]

end

theorem nothing_back (rows : List (Row α)) :
    first_match MatchRow (visit_rows true 0 rows) = none ↔ first_match MatchRow (visit_rows false 0 rows) = none := by
  simp only [first_match_none, mem_visit_rows]

/-- The walk back from a row with no match below it is right exactly when what comes before is plain. -/
theorem walk_backward (here : row_at tree path = some found) (below : Bool)
    (nothing : below = true → NothingBelow MatchRow tree path) :
    walk MatchRow true below tree path = first_match MatchRow (before_rows tree path).reverse ↔
      ∀ previous, first_match MatchRow (before_rows tree path).reverse = some previous → ¬ previous <+: path ∧
        ∀ entry ∈ shown tree, matching MatchRow entry = true → entry.1 <+: previous → entry.1 ≠ previous → ¬ entry.1 <+: path →
          IsBeforeParent path entry.1 := by
  induction path generalizing tree with
  | nil => cases here
  | cons row path ih =>
    -- What stands above a row of a smaller number has that number, too.
    have above_small {entry : Path × α} {previous : Path} (isShown : entry ∈ shown tree) {number : Nat} {lower : Path} (isNumber : previous = number :: lower)
        (above : entry.1 <+: previous) : ∃ rest, entry.1 = number :: rest := by
      obtain ⟨first, rest, isFirst, -, -⟩ := visit_rows_number isShown
      rw [isFirst, isNumber] at above
      exact ⟨rest, by rw [isFirst, (List.cons_prefix_cons.mp above).1]⟩
    cases path with
    | nil =>
      have there : tree[row]? = some found := here
      have inside := (split_rows there).1
      have notBelow : (if below = true then find_below MatchRow true tree row else none) = none := by
        split_ifs with isBelow
        · rw [find_below_eq, there, Option.bind_some, (nothing_back _).mpr ((nothing_below_iff there).mp (nothing isBelow)), Option.map_none]
        · rfl
      have start : (next_to true row).bind (FindRowIn MatchRow true tree) = first_match MatchRow (visit_rows true 0 (tree.take row)) := by
        cases row with
        | zero => rw [List.take_zero, visit_rows]; rfl
        | succ before => exact find_rows_eq _ _
      rw [walk, before_rows, notBelow, start, Option.none_or, rows_backward]
      refine forall₂_congr fun previous isPrevious => ?_
      obtain ⟨number, lower, isNumber, -, small⟩ := back_number isPrevious
      rw [List.length_take] at small
      have apart : ¬ previous <+: [row] := by
        intro above
        rw [isNumber] at above
        have same := (List.cons_prefix_cons.mp above).1
        omega
      rw [and_iff_right apart]
      constructor
      · intro plain entry isShown isMatch above other _
        obtain ⟨rest, isEntry⟩ := above_small isShown isNumber above
        exact absurd (plain entry ((mem_shown_take inside isEntry (by omega)).mp isShown) isMatch above) other
      · intro plain entry member isMatch above
        by_contra other
        obtain ⟨first, rest, isFirst, -, few⟩ := visit_rows_number member
        rw [List.length_take] at few
        have isShown := (mem_shown_take inside isFirst (by omega)).mpr member
        refine not_before_parent row entry.1 (plain entry isShown isMatch above other fun isRow => ?_)
        rw [isFirst] at isRow
        have same := (List.cons_prefix_cons.mp isRow).1
        omega
    | cons next path =>
      obtain ⟨parent, there, inner⟩ := Option.bind_eq_some_iff.mp here
      have inside := (split_rows there).1
      have deeper : next :: path ≠ [] := List.cons_ne_nil _ _
      have inner_iff := ih inner (fun isBelow => (nothing_below_cons there deeper).mp (nothing isBelow))
      have one : first_match MatchRow [([row], parent.data)] = if MatchRow parent.data then some [row] else none := by
        by_cases isMatch : MatchRow parent.data = true <;> simp [first_match, matching, isMatch]
      have entries : (before_rows tree (row :: next :: path)).reverse =
          at_row row (before_rows parent.children (next :: path)).reverse ++ [([row], parent.data)] ++ (visit_rows false 0 (tree.take row)).reverse := by
        rw [before_rows, there]
        simp [at_row]
      rw [walk, there, Option.bind_some, entries, first_match_append, first_match_append, first_match_at_row, one]
      cases right : first_match MatchRow (before_rows parent.children (next :: path)).reverse with
      | some lower =>
        have same : ((walk MatchRow true below parent.children (next :: path)).map (row :: ·)).or (next_sibling MatchRow true tree row) =
            some (row :: lower) ↔ walk MatchRow true below parent.children (next :: path) = some lower := by
          cases found : walk MatchRow true below parent.children (next :: path) with
          | none =>
            refine iff_of_false (fun sibling => ?_) (fun impossible => by cases impossible)
            obtain ⟨number, rest, isNumber, small⟩ := back_sibling_number (by simpa using sibling)
            have first := (List.cons.inj isNumber).1
            omega
          | some other => simp
        rw [right] at inner_iff
        rw [Option.map_some, Option.some_or, Option.some_or, same, inner_iff]
        simp only [Option.some.injEq, forall_eq']
        refine and_congr (by rw [List.cons_prefix_cons, and_iff_right rfl]) ⟨fun plain entry isShown isMatch above other apart => ?_,
          fun plain entry isShown isMatch above other apart => ?_⟩
        · obtain ⟨rest, isEntry⟩ := above_small isShown rfl above
          have member := (mem_shown there isEntry).mp isShown
          rw [visit_row_eq] at member
          rw [isEntry, List.cons_prefix_cons] at above apart
          rcases List.mem_cons.mp member with isRow | isLower
          · rw [(Prod.mk.inj isRow).1] at apart
            exact absurd ⟨rfl, List.nil_prefix⟩ apart
          · rw [isEntry, before_parent_cons]
            exact plain (rest, entry.2) isLower isMatch above.2 (fun same => other (isEntry.trans (congrArg (row :: ·) same)))
              (fun isAbove => apart ⟨rfl, isAbove⟩)
        · have member : (row :: entry.1, entry.2) ∈ shown tree := by
            rw [mem_shown there rfl, visit_row_eq]
            exact List.mem_cons_of_mem _ isShown
          exact before_parent_cons.mp (plain _ member isMatch (List.cons_prefix_cons.mpr ⟨rfl, above⟩) (fun same => other (List.cons.inj same).2)
            (fun isAbove => apart (List.cons_prefix_cons.mp isAbove).2))
      | none =>
        -- Before the current row nothing below the parent matches, and nothing is found there.
        have notFound : walk MatchRow true below parent.children (next :: path) = none := by
          rw [inner_iff.mpr (fun previous isPrevious => by rw [right] at isPrevious; cases isPrevious), right]
        rw [notFound, Option.map_none, Option.none_or, Option.none_or]
        by_cases isMatch : MatchRow parent.data = true
        · rw [if_pos isMatch, Option.some_or]
          refine iff_of_false (fun sibling => ?_) (fun plain => (plain _ rfl).1 (List.cons_prefix_cons.mpr ⟨rfl, List.nil_prefix⟩))
          obtain ⟨number, rest, isNumber, small⟩ := back_sibling_number sibling
          have first := (List.cons.inj isNumber).1
          omega
        · rw [if_neg isMatch, Option.none_or, next_sibling_backward inside]
          refine forall₂_congr fun previous isPrevious => ?_
          obtain ⟨number, lower, isNumber, -, small⟩ := back_number isPrevious
          rw [List.length_take] at small
          have apart {rest more : Path} : ¬ number :: rest <+: row :: more := by
            intro above
            have same := (List.cons_prefix_cons.mp above).1
            omega
          rw [and_iff_right (by rw [isNumber]; exact apart)]
          constructor
          · intro plain entry isShown isEntry above other _
            obtain ⟨rest, isRest⟩ := above_small isShown isNumber above
            have before := plain entry ((mem_shown_take inside isRest (by omega)).mp isShown) isEntry above other
            rw [isRest] at before ⊢
            exact (before_parent_level deeper (by omega)).mpr before
          · intro plain entry member isEntry above other
            obtain ⟨first, rest, isFirst, -, few⟩ := visit_rows_number member
            rw [List.length_take] at few
            have isShown := (mem_shown_take inside isFirst (by omega)).mpr member
            obtain ⟨rest, isRest⟩ := above_small isShown isNumber above
            have before := plain entry isShown isEntry above other (by rw [isRest]; exact apart)
            rw [isRest] at before ⊢
            exact (before_parent_level deeper (by omega)).mp before

theorem walk_below (here : row_at tree path = some found) (some : ¬ NothingBelow MatchRow tree path) :
    ∃ below, walk MatchRow true true tree path = Option.some below ∧ path <+: below := by
  induction path generalizing tree with
  | nil => cases here
  | cons row path ih =>
    cases path with
    | nil =>
      have there : tree[row]? = Option.some found := here
      rw [nothing_below_iff there] at some
      cases below : first_match MatchRow (visit_rows true 0 found.children) with
      | none => exact absurd ((nothing_back _).mp below) some
      | some lower =>
        refine ⟨row :: lower, ?_, ⟨lower, rfl⟩⟩
        rw [walk, if_pos rfl, find_below_eq, there, Option.bind_some, below]
        rfl
    | cons next path =>
      obtain ⟨parent, there, inner⟩ := Option.bind_eq_some_iff.mp here
      obtain ⟨below, found, above⟩ := ih inner (fun nothing => some ((nothing_below_cons there (List.cons_ne_nil _ _)).mpr nothing))
      refine ⟨row :: below, ?_, List.cons_prefix_cons.mpr ⟨rfl, above⟩⟩
      rw [walk, there, Option.bind_some, found]
      rfl

/-! ## Steps -/

mutual

theorem visit_row_nodup (row : Row α) : ((visit_row false row).map Prod.fst).Nodup := by
  cases row with
  | node data children =>
    rw [visit_row, List.map_cons, List.nodup_cons]
    refine ⟨fun member => ?_, visit_rows_nodup 0 children⟩
    obtain ⟨entry, inside, isEmpty⟩ := List.mem_map.mp member
    obtain ⟨number, rest, isNumber, -, -⟩ := visit_rows_number inside
    rw [isNumber] at isEmpty
    cases isEmpty

theorem visit_rows_nodup (first : Nat) (rows : List (Row α)) : ((visit_rows false first rows).map Prod.fst).Nodup := by
  cases rows with
  | nil => rw [visit_rows]; exact List.nodup_nil
  | cons row rest =>
    have here : ((at_row first (visit_row false row)).map Prod.fst).Nodup := by
      have same : (at_row first (visit_row false row)).map Prod.fst = ((visit_row false row).map Prod.fst).map (first :: ·) := by
        rw [at_row, List.map_map, List.map_map]
        rfl
      rw [same]
      exact (visit_row_nodup row).map fun one other same => (List.cons.inj same).2
    rw [visit_rows, if_neg Bool.false_ne_true, List.map_append]
    refine here.append (visit_rows_nodup (first + 1) rest) fun path inHere inRest => ?_
    obtain ⟨entry, member, rfl⟩ := List.mem_map.mp inHere
    obtain ⟨below, -, rfl⟩ := List.mem_map.mp member
    obtain ⟨other, later, same⟩ := List.mem_map.mp inRest
    obtain ⟨number, lower, isNumber, large, -⟩ := visit_rows_number later
    rw [isNumber] at same
    have first := (List.cons.inj same).1
    omega

end

theorem shown_nodup (tree : List (Row α)) : ((shown tree).map Prod.fst).Nodup := visit_rows_nodup 0 tree

theorem row_at_shown (isShown : entry ∈ shown tree) : ∃ found, row_at tree entry.1 = some found := by
  obtain ⟨path, data⟩ := entry
  induction path generalizing tree with
  | nil =>
    obtain ⟨number, lower, isNumber, -, -⟩ := visit_rows_number isShown
    cases isNumber
  | cons row path ih =>
    obtain ⟨number, lower, isNumber, -, small⟩ := visit_rows_number isShown
    obtain ⟨rfl, rfl⟩ := List.cons.inj isNumber
    obtain ⟨found, there⟩ : ∃ found, tree[row]? = some found := ⟨_, List.getElem?_eq_getElem (by omega)⟩
    rw [mem_shown there rfl, visit_row_eq] at isShown
    cases path with
    | nil => exact ⟨found, there⟩
    | cons next path =>
      rcases List.mem_cons.mp isShown with impossible | below
      · cases impossible
      · obtain ⟨last, inner⟩ := ih below
        exact ⟨last, Option.bind_eq_some_iff.mpr ⟨found, there, inner⟩⟩

theorem after_of_split {left right : List (Path × α)} (split : shown tree = left ++ entry :: right) :
    before tree entry.1 = left ∧ after tree entry.1 = right := by
  have apart : ∀ other ∈ left, other.1 ≠ entry.1 := by
    intro other member same
    have once := shown_nodup tree
    rw [split, List.map_append, List.nodup_append] at once
    exact once.2.2 other.1 (List.mem_map_of_mem member) entry.1 (by simp) same
  rw [before, after, split, List.takeWhile_append_of_pos (fun other member => by simpa using apart other member),
    List.dropWhile_append_of_pos (fun other member => by simpa using apart other member)]
  simp

theorem split_of_match {entries : List (Path × α)} {row : Path} (found : first_match MatchRow entries = some row) :
    ∃ left entry right, entries = left ++ entry :: right ∧ entry.1 = row ∧ matching MatchRow entry = true ∧
      ∀ other ∈ left, matching MatchRow other ≠ true := by
  obtain ⟨entry, first, rfl⟩ := Option.map_eq_some_iff.mp found
  obtain ⟨isMatch, left, right, split, none⟩ := List.find?_eq_some_iff_append.mp first
  exact ⟨left, entry, right, split, rfl, isMatch, fun other member => by simpa using none other member⟩

theorem find_forward (isCurrent : IsCurrent tree current) :
    FindRow MatchRow tree false current = right_next MatchRow tree current ↔ PlainNext MatchRow tree current := by
  match current with
  | some (row, column) =>
    obtain ⟨found, here⟩ := isCurrent
    rw [FindRow, right_next, PlainNext, right_next, after_eq here, walk_forward here]
    simp only [decide_eq_false_iff_not]
  | none =>
    have start : FindRow MatchRow tree false none = right_next MatchRow tree none ↔
        (right_next MatchRow tree none = some [0] → NothingBelow MatchRow tree [0]) := from_forward tree 0
    rw [start]
    exact ⟨fun plain next isNext same => by rw [same] at isNext ⊢; exact plain isNext, fun plain isFirst => plain [0] isFirst rfl⟩

theorem find_backward {row : Path} {column : Nat} (isCurrent : IsCurrent tree (some (row, column))) :
    FindRow MatchRow tree true (some (row, column)) = right_previous MatchRow tree row ↔ PlainPrevious MatchRow tree row column := by
  obtain ⟨found, here⟩ := isCurrent
  rw [FindRow, right_previous, PlainPrevious, right_previous, before_eq here]
  by_cases nothing : column = 0 → NothingBelow MatchRow tree row
  · rw [and_iff_right nothing]
    exact walk_backward here _ (fun first => nothing (of_decide_eq_true first))
  · refine iff_of_false (fun same => ?_) (fun plain => nothing plain.1)
    obtain ⟨rfl, some⟩ := Classical.not_imp.mp nothing
    obtain ⟨below, isBelow, above⟩ := walk_below here some
    rw [decide_eq_true rfl, isBelow] at same
    obtain ⟨entry, member, -, rfl⟩ := mem_first_match same.symm
    exact before_rows_apart (List.mem_reverse.mp member) above

theorem forward_rest (isCurrent : IsCurrent tree current) {next : Path}
    (found : FindRow MatchRow tree false current = some next) :
    IsCurrent tree (some (next, 0)) ∧
      ∃ passed, matching_after MatchRow tree current = passed ++ next :: matching_after MatchRow tree (some (next, 0)) := by
  obtain ⟨left, entry, right, split, isMatch, rfl, isAfter⟩ :
      ∃ left entry right, shown tree = left ++ entry :: right ∧ matching MatchRow entry = true ∧ entry.1 = next ∧ ∃ passed, matching_after MatchRow tree current = ((passed ++ entry :: right).filter (matching MatchRow)).map Prod.fst := by
    match current with
    | some (row, column) =>
      obtain ⟨here, isHere⟩ := isCurrent
      obtain ⟨entry, member, isMatch, same⟩ := walk_later found
      obtain ⟨passed, right, split⟩ := List.append_of_mem member
      refine ⟨before_rows tree row ++ (row, here.data) :: passed, entry, right, ?_, isMatch, same, passed, ?_⟩
      · rw [shown_split isHere, split, List.append_assoc, List.cons_append]
      · rw [matching_after, after_eq isHere, split]
    | none =>
      obtain ⟨entry, member, isMatch, same⟩ := from_member found
      obtain ⟨left, right, split⟩ := List.append_of_mem member
      have isShown : shown tree = left ++ entry :: right := split
      exact ⟨left, entry, right, isShown, isMatch, same, left, by rw [matching_after, matching_rows, isShown]⟩
  obtain ⟨passed, rest⟩ := isAfter
  refine ⟨row_at_shown (by rw [split]; simp), (passed.filter (matching MatchRow)).map Prod.fst, ?_⟩
  rw [rest, matching_after, (after_of_split split).2, List.filter_append, List.filter_cons_of_pos isMatch, List.map_append, List.map_cons]

theorem right_next_eq (tree : List (Row α)) (current : Option (Path × Nat)) :
    right_next MatchRow tree current = (matching_after MatchRow tree current).head? := by
  match current with
  | some (row, column) => rw [right_next, matching_after, List.head?_map, List.head?_filter, first_match]
  | none => rw [right_next, matching_after, matching_rows, List.head?_map, List.head?_filter, first_match]

theorem visits_sublist (steps : Nat) (isCurrent : IsCurrent tree current) :
    (visits MatchRow tree steps current).Sublist (matching_after MatchRow tree current) := by
  induction steps generalizing current with
  | zero => exact List.nil_sublist _
  | succ steps ih =>
    rw [visits]
    cases found : FindRow MatchRow tree false current with
    | none => exact List.nil_sublist _
    | some next =>
      obtain ⟨isNext, passed, rest⟩ := forward_rest isCurrent found
      rw [rest]
      exact ((ih isNext).cons_cons next).trans (List.sublist_append_right _ _)

theorem matching_after_nodup (tree : List (Row α)) (current : Option (Path × Nat)) : (matching_after MatchRow tree current).Nodup := by
  refine (shown_nodup tree).sublist ?_
  match current with
  | some (row, column) => exact (List.filter_sublist.trans ((List.tail_sublist _).trans (List.dropWhile_sublist _))).map Prod.fst
  | none => exact List.filter_sublist.map Prod.fst

theorem visits_iff (steps : Nat) (isCurrent : IsCurrent tree current)
    (enough : (matching_after MatchRow tree current).length ≤ steps) :
    visits MatchRow tree steps current = matching_after MatchRow tree current ↔
      PlainNext MatchRow tree current ∧ ∀ row ∈ matching_after MatchRow tree current, PlainNext MatchRow tree (some (row, 0)) := by
  induction steps generalizing current with
  | zero =>
    have nothing := List.length_eq_zero_iff.mp (Nat.le_zero.mp enough)
    rw [nothing, visits]
    refine iff_of_true rfl ⟨fun next isNext => ?_, fun row member => by cases member⟩
    rw [right_next_eq, nothing] at isNext
    cases isNext
  | succ steps ih =>
    rw [← find_forward isCurrent, right_next_eq, visits]
    cases rows : matching_after MatchRow tree current with
    | nil =>
      cases found : FindRow MatchRow tree false current with
      | none => simp
      | some next =>
        obtain ⟨-, passed, rest⟩ := forward_rest isCurrent found
        rw [rows] at rest
        exact absurd rest (by simp)
    | cons row behind =>
      cases found : FindRow MatchRow tree false current with
      | none => simp
      | some next =>
        obtain ⟨isNext, passed, rest⟩ := forward_rest isCurrent found
        rw [rows] at rest enough
        have behind_eq (same : next = row) : matching_after MatchRow tree (some (next, 0)) = behind := by
          have once : (matching_after MatchRow tree current).Nodup := matching_after_nodup tree current
          cases passed with
          | nil => exact (List.cons.inj rest).2.symm
          | cons first passed =>
            obtain ⟨rfl, isBehind⟩ := List.cons.inj rest
            rw [rows, isBehind, same] at once
            exact absurd (List.mem_append_right passed List.mem_cons_self) (List.nodup_cons.mp once).1
        have further (same : next = row) : visits MatchRow tree steps (some (next, 0)) = behind ↔
            PlainNext MatchRow tree (some (next, 0)) ∧ ∀ row ∈ behind, PlainNext MatchRow tree (some (row, 0)) := by
          rw [← behind_eq same]
          exact ih isNext (by rw [behind_eq same]; exact Nat.le_of_succ_le_succ enough)
        rw [List.head?_cons, Option.some.injEq, List.cons.injEq]
        refine and_congr_right fun same => ?_
        rw [further same, same]
        simp

theorem visits_perm {steps : Nat} (enough : (matching_rows MatchRow tree).length ≤ steps) :
    (visits MatchRow tree steps none).Perm (matching_rows MatchRow tree) ↔
      PlainNext MatchRow tree none ∧ ∀ row ∈ matching_rows MatchRow tree, PlainNext MatchRow tree (some (row, 0)) := by
  have begins : IsCurrent tree none := trivial
  refine Iff.trans ⟨fun same => ?_, fun same => ?_⟩ (visits_iff steps begins enough)
  · exact (visits_sublist steps begins).eq_of_length same.length_eq
  · exact List.Perm.of_eq same

theorem previous_of_next {row : Path} {column : Nat} (member : row ∈ matching_rows MatchRow tree) {next : Path}
    (isNext : right_next MatchRow tree (some (row, column)) = some next) :
    right_previous MatchRow tree next = some row := by
  obtain ⟨entry, isEntry, rfl⟩ := List.mem_map.mp member
  obtain ⟨isShown, isMatch⟩ := List.mem_filter.mp isEntry
  obtain ⟨left, right, split⟩ := List.append_of_mem isShown
  obtain ⟨passed, other, later, isRight, rfl, -, none⟩ := split_of_match isNext
  rw [(after_of_split split).2] at isRight
  have whole : shown tree = (left ++ entry :: passed) ++ other :: later := by rw [split, isRight, List.append_assoc, List.cons_append]
  rw [right_previous, (after_of_split whole).1, List.reverse_append, List.reverse_cons, List.append_assoc, first_match_append,
    first_match_none.mpr (fun entry member => none entry (List.mem_reverse.mp member)), Option.none_or, first_match, List.singleton_append,
    List.find?_cons_of_pos isMatch]
  rfl

end

/-- Each search finds what is expected exactly when it is a plain one; steps forward from no selection select each row that matches once exactly
when all of them are plain; and a step back undoes a plain step forward exactly when it is plain itself. -/
theorem find_every_match {α : Type} (MatchRow : α → Bool) (tree : List (Row α)) :
    (∀ current, IsCurrent tree current →
      (FindRow MatchRow tree false current = right_next MatchRow tree current ↔ PlainNext MatchRow tree current)) ∧
    (∀ row column, IsCurrent tree (some (row, column)) →
      (FindRow MatchRow tree true (some (row, column)) = right_previous MatchRow tree row ↔ PlainPrevious MatchRow tree row column)) ∧
    (∀ steps, (matching_rows MatchRow tree).length ≤ steps →
      ((visits MatchRow tree steps none).Perm (matching_rows MatchRow tree) ↔
        PlainNext MatchRow tree none ∧ ∀ row ∈ matching_rows MatchRow tree, PlainNext MatchRow tree (some (row, 0)))) ∧
    ∀ row ∈ matching_rows MatchRow tree, ∀ next, PlainNext MatchRow tree (some (row, 0)) →
      FindRow MatchRow tree false (some (row, 0)) = some next →
        (FindRow MatchRow tree true (some (next, 0)) = some row ↔ PlainPrevious MatchRow tree next 0) := by
  refine ⟨fun current => find_forward, fun row column => find_backward, fun steps => visits_perm, fun row member next plain found => ?_⟩
  obtain ⟨entry, isEntry, rfl⟩ := List.mem_map.mp member
  have isCurrent : IsCurrent tree (some (entry.1, 0)) := row_at_shown (List.mem_of_mem_filter isEntry)
  have isNext : right_next MatchRow tree (some (entry.1, 0)) = some next := by rw [← (find_forward isCurrent).mpr plain, found]
  rw [← find_backward (forward_rest isCurrent found).1, previous_of_next member isNext]

/-- Two rows that match, one below the other, before a third row: without a current row the upper one is missed, and so it stays; back from the third
row the lower one is. -/
def folder : List (Row Bool) := [.node true [.node true []], .node false []]

theorem upper_row_missed :
    FindRow id folder false none = some [0, 0] ∧ right_next id folder none = some [0] ∧
      visits id folder 9 none = [[0, 0]] ∧ matching_rows id folder = [[0], [0, 0]] ∧
      FindRow id folder true (some ([1], 0)) = some [0] ∧ right_previous id folder [1] = some [0, 0] := by
  decide

end TaskExplorer.Finder
