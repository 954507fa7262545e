import Mathlib

/-!
# Rows with rows below them

The rows of a tree: each has a node, the number it believes to be in, and the rows
below it. A node is at the position that the keys of the nodes above it make.
-/

namespace TaskExplorer.Forest

inductive Rows (N : Type) where
  | nil
  | cons (row : Nat) (node : N) (children rest : Rows N)
deriving DecidableEq, Repr

section
variable {N α : Type} (key : N → α)

/-- The rows on top. -/
def Rows.length : Rows N → Nat
  | .nil => 0
  | .cons _ _ _ rest => rest.length + 1

def Rows.isEmpty : Rows N → Bool
  | .nil => true
  | .cons _ _ _ _ => false

/-- A row behind the others. -/
def Rows.snoc (node : N) (row : Nat) : Rows N → Rows N
  | .nil => .cons row node .nil .nil
  | .cons first other children rest => .cons first other children (rest.snoc node row)

/-- The rows on top get the numbers from `index` on. -/
def Rows.renumber : Nat → Rows N → Rows N
  | _, .nil => .nil
  | index, .cons _ node children rest => .cons index node children (rest.renumber (index + 1))

/-- Every row has its number. -/
def Rows.Numbered : Nat → Rows N → Prop
  | _, .nil => True
  | index, .cons row _ children rest => row = index ∧ children.Numbered 0 ∧ rest.Numbered (index + 1)

/-- The rows below have their numbers. -/
def Rows.NumberedBelow : Rows N → Prop
  | .nil => True
  | .cons _ _ children rest => children.Numbered 0 ∧ rest.NumberedBelow

/-- All nodes, with their positions. -/
def places : List α → Rows N → List (List α × N)
  | _, .nil => []
  | position, .cons _ node children rest => (position, node) :: (places (position ++ [key node]) children ++ places position rest)

/-- All nodes. -/
def nodes : Rows N → List N
  | .nil => []
  | .cons _ node children rest => node :: (nodes children ++ nodes rest)

/-- What is left of the rows that hold something that stays. -/
def prune (stay : N → Bool) : Rows N → Rows N
  | .nil => .nil
  | .cons row node children rest =>
    bif !stay node && (prune stay children).isEmpty then prune stay rest else .cons row node (prune stay children) (prune stay rest)

/-- A new node below the one that is meant. -/
def hang (target : N → Bool) (node : N) : Rows N → Rows N
  | .nil => .nil
  | .cons row other children rest =>
    .cons row other (if target other then children.snoc node children.length else hang target node children) (hang target node rest)

/-! ## Numbers -/

variable {rows : Rows N}

theorem numbered_renumber (below : rows.NumberedBelow) (index : Nat) : (rows.renumber index).Numbered index := by
  induction rows generalizing index with
  | nil => trivial
  | cons row node children rest _ ih => exact ⟨rfl, below.1, ih below.2 (index + 1)⟩

theorem Rows.Numbered.below {index : Nat} (numbered : rows.Numbered index) : rows.NumberedBelow := by
  induction rows generalizing index with
  | nil => trivial
  | cons row node children rest _ ih => exact ⟨numbered.2.1, ih numbered.2.2⟩

theorem numbered_snoc {index : Nat} (numbered : rows.Numbered index) (node : N) :
    (rows.snoc node (index + rows.length)).Numbered index := by
  induction rows generalizing index with
  | nil => exact ⟨rfl, trivial, trivial⟩
  | cons row other children rest _ ih =>
    have next := ih numbered.2.2
    rw [Nat.add_assoc, Nat.add_comm 1] at next
    exact ⟨numbered.1, numbered.2.1, next⟩

theorem numbered_hang {index : Nat} (numbered : rows.Numbered index) (target : N → Bool) (node : N) :
    (hang target node rows).Numbered index := by
  induction rows generalizing index with
  | nil => trivial
  | cons row other children rest inner ih =>
    refine ⟨numbered.1, ?_, ih numbered.2.2⟩
    split_ifs
    · have last := numbered_snoc numbered.2.1 node
      rw [Nat.zero_add] at last
      exact last
    · exact inner numbered.2.1

/-! ## Places -/

@[simp] theorem places_nil (position : List α) : places key position (.nil : Rows N) = [] := rfl

@[simp] theorem places_cons (position : List α) (row : Nat) (node : N) (children rest : Rows N) :
    places key position (.cons row node children rest) =
      (position, node) :: (places key (position ++ [key node]) children ++ places key position rest) := rfl

theorem places_renumber (rows : Rows N) (index : Nat) (position : List α) : places key position (rows.renumber index) = places key position rows := by
  induction rows generalizing index with
  | nil => rfl
  | cons row node children rest _ ih => simp [Rows.renumber, ih]

theorem places_snoc (rows : Rows N) (node : N) (row : Nat) (position : List α) :
    places key position (rows.snoc node row) = places key position rows ++ [(position, node)] := by
  induction rows with
  | nil => rfl
  | cons first other children rest _ ih => simp [Rows.snoc, ih]

theorem places_nodes (rows : Rows N) (position : List α) : (places key position rows).map Prod.snd = nodes rows := by
  induction rows generalizing position with
  | nil => rfl
  | cons row node children rest inner ih => simp [nodes, inner, ih]

variable {position : List α}

theorem places_position {place : List α × N} (member : place ∈ places key position rows) : position <+: place.1 := by
  induction rows generalizing position with
  | nil => cases member
  | cons row node children rest inner ih =>
    rw [places_cons, List.mem_cons, List.mem_append] at member
    rcases member with rfl | below | beside
    · exact List.prefix_refl _
    · exact (List.prefix_append _ _).trans (inner below)
    · exact ih beside

theorem places_ancestor {rows : Rows N} {position : List α} {place : List α × N} (member : place ∈ places key position rows) {upper lower : List α}
    {step : α} (split : place.1 = position ++ (upper ++ step :: lower)) :
    ∃ node, (position ++ upper, node) ∈ places key position rows ∧ key node = step := by
  induction rows generalizing position upper with
  | nil => cases member
  | cons row node children rest inner ih =>
    rw [places_cons, List.mem_cons, List.mem_append] at member
    rcases member with rfl | below | beside
    · simp at split
    · obtain ⟨more, isMore⟩ := places_position key below
      rw [← isMore, List.append_assoc, List.append_cancel_left_eq, List.singleton_append] at split
      cases upper with
      | nil =>
        rw [List.nil_append, List.cons.injEq] at split
        exact ⟨node, by simp, split.1⟩
      | cons first upper =>
        rw [List.cons_append, List.cons.injEq] at split
        obtain ⟨isFirst, isRest⟩ := split
        subst isFirst isRest
        obtain ⟨found, there, isStep⟩ := inner below isMore.symm
        refine ⟨found, ?_, isStep⟩
        rw [List.append_assoc, List.singleton_append] at there
        simp [there]
    · obtain ⟨found, there, isStep⟩ := ih beside split
      exact ⟨found, by simp [there], isStep⟩

theorem isEmpty_of_places {left right : Rows N} {position : List α} (same : places key position left = places key position right) :
    left.isEmpty = right.isEmpty := by
  cases left with
  | nil =>
    cases right with
    | nil => rfl
    | cons row node children rest => simp at same
  | cons row node children rest =>
    cases right with
    | nil => simp at same
    | cons row node children rest => rfl

/-! ## Pruning -/

theorem rows_isEmpty_iff (rows : Rows N) : rows.isEmpty = true ↔ rows = .nil := by
  cases rows with
  | nil => simp [Rows.isEmpty]
  | cons row node children rest => simp [Rows.isEmpty]

theorem prune_cases (stay : N → Bool) (row : Nat) (node : N) (children rest : Rows N) :
    (stay node = false ∧ prune stay children = .nil ∧ prune stay (.cons row node children rest) = prune stay rest) ∨
    (¬ (stay node = false ∧ prune stay children = .nil) ∧
      prune stay (.cons row node children rest) = .cons row node (prune stay children) (prune stay rest)) := by
  rw [prune]
  cases gone : !stay node && (prune stay children).isEmpty with
  | true =>
    rw [Bool.and_eq_true, Bool.not_eq_true', rows_isEmpty_iff] at gone
    exact .inl ⟨gone.1, gone.2, rfl⟩
  | false =>
    refine .inr ⟨?_, rfl⟩
    rintro ⟨leaves, none⟩
    rw [leaves, (rows_isEmpty_iff _).mpr none] at gone
    cases gone

theorem prune_sublist (stay : N → Bool) (rows : Rows N) (position : List α) :
    (places key position (prune stay rows)).Sublist (places key position rows) := by
  induction rows generalizing position with
  | nil => exact List.Sublist.refl _
  | cons row node children rest inner ih =>
    rcases prune_cases stay row node children rest with ⟨-, -, same⟩ | ⟨-, same⟩ <;> rw [same]
    · exact ((ih position).trans (List.sublist_append_right _ _)).cons _
    · exact ((inner _).append (ih position)).cons_cons _

theorem nodes_prune (stay : N → Bool) (rows : Rows N) : (nodes (prune stay rows)).Sublist (nodes rows) := by
  rw [← places_nodes (fun _ => ()) rows [], ← places_nodes (fun _ => ()) (prune stay rows) []]
  exact (prune_sublist (fun _ => ()) stay rows []).map Prod.snd

theorem prune_stays {stay : N → Bool} {place : List α × N} (member : place ∈ places key position rows)
    (stays : stay place.2 = true) : place ∈ places key position (prune stay rows) := by
  induction rows generalizing position with
  | nil => cases member
  | cons row node children rest inner ih =>
    rw [places_cons, List.mem_cons, List.mem_append] at member
    rcases prune_cases stay row node children rest with ⟨leaves, none, same⟩ | ⟨-, same⟩ <;> rw [same]
    · rcases member with rfl | below | beside
      · rw [leaves] at stays
        cases stays
      · have kept := inner below
        rw [none] at kept
        cases kept
      · exact ih beside
    · rw [places_cons, List.mem_cons, List.mem_append]
      exact member.imp_right (Or.imp inner ih)

theorem exists_stays {stay : N → Bool} (some : prune stay rows ≠ .nil) (position : List α) :
    ∃ place ∈ places key position (prune stay rows), stay place.2 = true := by
  induction rows generalizing position with
  | nil => exact absurd rfl some
  | cons row node children rest inner ih =>
    rcases prune_cases stay row node children rest with ⟨-, -, same⟩ | ⟨gone, same⟩ <;> rw [same] at some ⊢
    · exact ih some position
    · cases stays : stay node with
      | true => exact ⟨(position, node), by simp, stays⟩
      | false =>
        obtain ⟨place, member, here⟩ := inner (fun none => gone ⟨stays, none⟩) (position ++ [key node])
        exact ⟨place, by simp [member], here⟩

theorem prune_reason {stay : N → Bool} {place : List α × N} (member : place ∈ places key position (prune stay rows)) :
    stay place.2 = true ∨ ∃ below ∈ places key position (prune stay rows), stay below.2 = true ∧ place.1 ++ [key place.2] <+: below.1 := by
  induction rows generalizing position with
  | nil => cases member
  | cons row node children rest inner ih =>
    rcases prune_cases stay row node children rest with ⟨-, -, same⟩ | ⟨gone, same⟩ <;> rw [same] at member ⊢
    · exact ih member
    · rw [places_cons, List.mem_cons, List.mem_append] at member
      rw [places_cons]
      rcases member with rfl | below | beside
      · cases stays : stay node with
        | true => exact .inl rfl
        | false =>
          obtain ⟨place, there, here⟩ := exists_stays key (fun none => gone ⟨stays, none⟩) (position ++ [key node])
          exact .inr ⟨place, by simp [there], here, places_position key there⟩
      · rcases inner below with stays | ⟨lower, there, rest⟩
        · exact .inl stays
        · exact .inr ⟨lower, by simp [there], rest⟩
      · rcases ih beside with stays | ⟨lower, there, rest⟩
        · exact .inl stays
        · exact .inr ⟨lower, by simp [there], rest⟩

/-! ## Hanging -/

theorem hang_absent {target : N → Bool} (absent : ∀ place ∈ places key position rows, target place.2 = false) (node : N)
    : hang target node rows = rows := by
  induction rows generalizing position with
  | nil => rfl
  | cons row other children rest inner ih =>
    rw [places_cons] at absent
    have isOther : target other = false := absent (position, other) List.mem_cons_self
    have below : hang target node children = children :=
      @inner (position ++ [key other]) (fun place member => absent place (by simp [member]))
    have beside : hang target node rest = rest := @ih position (fun place member => absent place (by simp [member]))
    rw [hang, isOther, if_neg Bool.false_ne_true, below, beside]

theorem hang_perm {target : N → Bool} {rows : Rows N} {position : List α} {place : List α × N} (member : place ∈ places key position rows)
    (isTarget : target place.2 = true)
    (once : (places key position rows).Pairwise (fun place other => target place.2 = true → target other.2 = false)) (node : N) :
    (places key position (hang target node rows)).Perm ((place.1 ++ [key place.2], node) :: places key position rows) := by
  induction rows generalizing position with
  | nil => cases member
  | cons row other children rest inner ih =>
    rw [places_cons] at member once ⊢
    rw [List.pairwise_cons, List.pairwise_append] at once
    obtain ⟨first, below, beside, apart⟩ := once
    rw [hang, places_cons]
    rcases List.mem_cons.mp member with rfl | later
    · have restSame : hang target node rest = rest :=
        hang_absent key (fun another among => first another (List.mem_append_right _ among) isTarget) node
      rw [if_pos isTarget, restSame, places_snoc, List.append_assoc]
      refine ((List.perm_middle).cons _).trans ?_
      exact List.Perm.swap _ _ _
    · have notOther : target other = false := by
        by_contra isOther
        rw [Bool.not_eq_false] at isOther
        rw [first place later isOther] at isTarget
        cases isTarget
      rw [notOther, if_neg Bool.false_ne_true]
      refine List.Perm.trans ?_ (List.Perm.swap _ _ _)
      refine List.Perm.cons _ ?_
      rcases List.mem_append.mp later with inside | outside
      · have restSame : hang target node rest = rest := hang_absent key (fun another among => apart place inside another among isTarget) node
        rw [restSame, ← List.cons_append]
        exact (inner inside below).append_right _
      · have childrenSame : hang target node children = children := by
          apply hang_absent key
          intro another among
          by_contra isAnother
          rw [Bool.not_eq_false] at isAnother
          rw [apart another among place outside isAnother] at isTarget
          cases isTarget
        rw [childrenSame]
        exact ((ih outside beside).append_left _).trans List.perm_middle

end

end TaskExplorer.Forest
