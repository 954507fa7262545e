import TaskExplorer.ProcessPaths

/-!
# Showing the same list again

`CSimpleTreeModel` finds the path of an entry with `MakePath` and tests the path of its node with `TestPath`. Only the first of
them stops at an entry that is its own parent, and neither notices that it comes back to where it was.
-/

namespace TaskExplorer.TreeStability
open Forest OrderedMap TreeItemModel ProcessModel ProcessPaths Transition Relation

/-! ## Rows that pruning leaves -/

section
variable {N : Type}

theorem prune_all {stay : N → Bool} {rows : Rows N} (all : (nodes (prune stay rows)).length = (nodes rows).length) : prune stay rows = rows := by
  induction rows with
  | nil => rfl
  | cons row node children rest inner ih =>
    have below := (nodes_prune stay children).length_le
    have beside := (nodes_prune stay rest).length_le
    rcases prune_cases stay row node children rest with ⟨-, -, same⟩ | ⟨-, same⟩ <;> rw [same] at all ⊢
    · simp only [nodes, List.length_cons, List.length_append] at all
      omega
    · simp only [nodes, List.length_cons, List.length_append] at all
      rw [inner (by omega), ih (by omega)]

end

section
variable {α : Type} [LinearOrder α]

theorem purge_unchanged {null pinned : α → Bool} {old : OrdMap α (Option Nat)} {rows : Rows (STreeNode α)}
    (left : prune (stays null pinned old) rows = rows) (wanted : ∀ node ∈ nodes rows, bRemove null old node = false) (index : Nat) (map : OrdMap α Nat) :
    purge null pinned old index rows map = ⟨rows, false, false, map⟩ := by
  induction rows generalizing index map with
  | nil => rfl
  | cons row node children rest inner ih =>
    have smaller := (nodes_prune (stays null pinned old) rest).length_le
    rcases prune_cases (stays null pinned old) row node children rest with ⟨-, -, same⟩ | ⟨kept, same⟩
    · rw [left] at same
      have count := congrArg (fun rows => (nodes rows).length) same
      simp only [nodes, List.length_cons, List.length_append] at count
      omega
    · rw [left, Rows.cons.injEq] at same
      obtain ⟨-, -, below, beside⟩ := same
      rw [nodes] at wanted
      have later : purge null pinned old (index + 1) rest map = ⟨rest, false, false, map⟩ :=
        ih beside.symm (fun other among => wanted other (by simp [among])) _ _
      have inside : purge null pinned old 0 children map = ⟨children, false, false, map⟩ :=
        inner below.symm (fun other among => wanted other (by simp [among])) _ _
      have isWanted : bRemove null old node = false := wanted node (by simp)
      have stayed : ((node.isVirtual || null node.id || false) && children.isEmpty && !pinned node.id) = false := by
        by_contra gone
        rw [Bool.not_eq_false, Bool.and_right_comm, Bool.and_eq_true, ← isWanted] at gone
        obtain ⟨leaves, noneBelow⟩ := gone
        rw [Bool.and_eq_true, Bool.not_eq_true'] at leaves
        refine kept ⟨?_, below.symm.trans ((rows_isEmpty_iff children).mp noneBelow)⟩
        rw [stays, leaves.1, leaves.2]
        rfl
      rw [purge]
      simp only [later, inside, Sweep.finish, isWanted, stayed, cond_false]

variable {model : Model α} {entries : List (Entry α)}

theorem nothing_new (tidy : Tidy model) (once : (entries.map Entry.id).Nodup) (all : ∀ entry ∈ entries, Matched model.rows entry) :
    (entries.foldl (Loop.take model.rows) model.begin).fresh = OrdMap.empty ∧ (entries.foldl (Loop.take model.rows) model.begin).next = model.next := by
  induction entries using List.reverseRecOn with
  | nil => exact ⟨rfl, rfl⟩
  | append_singleton before entry ih =>
    rw [List.map_append, List.nodup_append] at once
    have taken := Taken.all_taken tidy once.1
    have known := taken.others entry.id (fun other among same => absurd same (once.2.2 other.id (List.mem_map_of_mem among) entry.id (by simp)))
    rw [List.foldl_append]
    rcases tidy.take_cases known with ⟨-, same⟩ | ⟨notMatched, -⟩
    · rw [List.foldl_cons, List.foldl_nil, same]
      exact ih once.1 (fun other among => all other (List.mem_append_left _ among))
    · exact absurd (all entry (by simp)) notMatched

theorem sync_matched (tidy : Tidy model) (once : (entries.map Entry.id).Nodup) (all : ∀ entry ∈ entries, Matched model.rows entry) (null pinned : α → Bool) :
    sync null pinned entries model = purge_root null pinned (entries.foldl (Loop.take model.rows) model.begin).old model := by
  obtain ⟨noneFresh, isNext⟩ := nothing_new tidy once all
  rw [sync, purged_always tidy (Taken.all_taken tidy once), noneFresh, isNext]
  rfl

end

/-! ## Paths -/

section
variable {α : Type} [LinearOrder α]

/-- The parent that `MakePath` goes on with. -/
def own_parent (list : OrdMap α α) (cur : Item α) : Option (Item α) := if cur.parentId ≠ cur.id then parent_item list cur else none

/-- The call of `MakePath` for an entry comes to its end. -/
def Ends (list : OrdMap α α) (cur : Item α) : Prop := ∃ fuel, Short (own_parent list) fuel cur

/-- What is expected of `MakePath` and `TestPath`. -/
def PathsAgree (list : OrdMap α α) : Prop :=
  ∀ cur ∈ items list, Ends list cur ∧ ∀ path, simple_test_path list path cur = true ↔ path = simple_make_path list cur

/-- What is expected of a list: its paths agree, and showing it again leaves everything as it is. -/
def Stable (null : α → Bool) (state : SimpleTree α) (list : OrdMap α α) : Prop :=
  PathsAgree list ∧
    ∀ once twice, simple_step null state (.sync list) = some once → simple_step null once (.sync list) = some twice → twice = once

/-- No entry comes back to itself over its parents. -/
def Returnless (list : OrdMap α α) : Prop := Acyclic (parent_item list) (items list)

/-- An entry whose id is null has another one, whose id is not, somewhere below it. -/
def NullsHeld (null : α → Bool) (tree : Bool) (list : OrdMap α α) : Prop :=
  ∀ cur ∈ items list, null cur.id = true →
    tree = true ∧ ∃ other ∈ items list, null other.id = false ∧ TransGen (fun cur parent => parent_item list cur = some parent) other cur

variable {list : OrdMap α α}

theorem item_eq {cur other : Item α} (member : cur ∈ items list) (isOther : other ∈ items list) (same : cur.id = other.id) : cur = other := by
  have one := mem_items.mp member
  rw [same, mem_items.mp isOther, Option.some.injEq] at one
  cases cur
  cases other
  cases same
  cases one
  rfl

theorem parent_other (agree : PathsAgree list) {cur : Item α} (member : cur ∈ items list) : parent_item list cur ≠ some cur := by
  intro own
  have isOwn : cur.parentId = cur.id := (parent_item_mem own).2.symm
  have one : list.entries.length ≠ 0 := by
    intro none
    rw [items, List.length_eq_zero_iff.mp none] at member
    cases member
  obtain ⟨fuel, isFuel⟩ := Nat.exists_eq_succ_of_ne_zero one
  have made : simple_make_path list cur = [] := by
    rw [simple_make_path, isFuel, make_path, isOwn, if_neg (not_not_intro rfl)]
  have tested := ((agree cur member).2 []).mpr made.symm
  rw [simple_test_path, isFuel, test_path, own] at tested
  simp at tested

theorem paths_agree_iff : PathsAgree list ↔ Returnless list := by
  constructor
  · intro agree cur member cycle
    have same : ∀ cur ∈ items list, own_parent list cur = parent_item list cur := by
      intro cur member
      by_cases own : cur.parentId = cur.id
      · refine absurd ?_ (parent_other agree member)
        rw [parent_item, own, mem_items.mp member, ← own]
        cases cur
        cases own
        rfl
      · exact if_pos own
    have shorter : ∀ {fuel : Nat} {cur : Item α}, cur ∈ items list → Short (own_parent list) fuel cur → Short (parent_item list) fuel cur := by
      intro fuel
      induction fuel with
      | zero => exact fun _ short => short
      | succ fuel ih =>
        intro cur member short parent isParent
        exact ih (parent_item_mem isParent).1 (short parent ((same cur member).trans isParent))
    obtain ⟨fuel, short⟩ := (agree cur member).1
    exact no_cycle_of_short (shorter member short) cycle
  · intro returnless cur member
    refine ⟨⟨list.entries.length, ?_⟩, fun path => ?_⟩
    · have shorter : ∀ {fuel : Nat} {cur : Item α}, Short (parent_item list) fuel cur → Short (own_parent list) fuel cur := by
        intro fuel
        induction fuel with
        | zero => exact fun short => short
        | succ fuel ih =>
          intro cur short parent isParent
          rw [own_parent] at isParent
          split_ifs at isParent
          exact ih (short parent isParent)
      exact shorter (simple_short returnless member)
    · have tested := (simple_coherent returnless true).test _ (List.mem_map_of_mem member) path
      exact tested

theorem above_iff (returnless : Returnless list) {cur other : Item α} (member : cur ∈ items list) (isOther : other ∈ items list) :
    simple_make_path list cur ++ [cur.id] <+: simple_make_path list other ↔
      TransGen (fun cur parent => parent_item list cur = some parent) other cur := by
  have path_up : ∀ {cur parent : Item α}, cur ∈ items list → parent_item list cur = some parent →
      simple_make_path list cur = simple_make_path list parent ++ [parent.id] := by
    intro cur parent member isParent
    rw [simple_path_eq returnless member, simple_path_eq returnless (parent_item_mem isParent).1]
    exact make_path_up (simple_short returnless member) isParent
  have above : ∀ {other : Item α}, other ∈ items list → TransGen (fun cur parent => parent_item list cur = some parent) other cur →
      simple_make_path list cur ++ [cur.id] <+: simple_make_path list other := by
    intro other isOther climb
    induction climb using TransGen.head_induction_on with
    | single last => rw [path_up isOther last]
    | head first _ ih =>
      rw [path_up isOther first]
      exact (ih (parent_item_mem first).1).trans (List.prefix_append _ _)
  have climbed : ∀ {fuel : Nat} {other : Item α}, other ∈ items list → Short (parent_item list) fuel other →
      simple_make_path list cur ++ [cur.id] <+: simple_make_path list other →
      TransGen (fun cur parent => parent_item list cur = some parent) other cur := by
    intro fuel
    induction fuel with
    | zero => exact fun _ short => short.elim
    | succ fuel ih =>
      intro other isOther short isPrefix
      cases isParent : parent_item list other with
      | none =>
        have top : simple_make_path list other = [] := by
          rw [simple_path_eq returnless isOther]
          cases list.entries.length with
          | zero => rfl
          | succ fuel => rw [make_path, isParent]
        rw [top] at isPrefix
        simp at isPrefix
      | some parent =>
        have parentMember := (parent_item_mem isParent).1
        rw [path_up isOther isParent, List.prefix_concat_iff] at isPrefix
        rcases isPrefix with whole | upper
        · have sameId : cur.id = parent.id := List.singleton_inj.mp (List.append_inj_right' whole rfl)
          rw [item_eq member parentMember sameId]
          exact .single isParent
        · exact (ih parentMember (short parent isParent) upper).head isParent
  exact ⟨climbed isOther (simple_short returnless isOther), above isOther⟩

/-! ## The same list again -/

section
variable {null : α → Bool} {tree : Bool} {model : Model α}

theorem compatible_again (returnless : Returnless list)
    (structured : Structured (fun _ => false) ((items list).map (simple_entry tree list)) model)
    (real : ∀ place ∈ places STreeNode.id [] model.rows, place.2.isVirtual = false) (held : NullsHeld null tree list) :
    Compatible null ((items list).map (simple_entry tree list)) model.rows := by
  refine ⟨?_, fun _ _ _ place there _ => real place there, ?_⟩
  · rintro entry among - place there ⟨lower, isLower⟩
    obtain ⟨cur, member, rfl⟩ := List.mem_map.mp among
    rw [List.append_assoc, List.singleton_append] at isLower
    exact iff_of_true (real place there) (simple_steps_shown returnless tree member isLower.symm)
  · rintro entry among - isNull
    obtain ⟨cur, member, rfl⟩ := List.mem_map.mp among
    obtain ⟨rfl, other, isOther, notNull, climb⟩ := held cur member isNull
    have otherAmong := List.mem_map_of_mem (f := simple_entry true list) isOther
    exact ⟨_, otherAmong, structured.shown _ otherAmong, notNull, (above_iff returnless member isOther).mpr climb⟩

theorem again_iff (returnless : Returnless list) (sound : Sound (fun _ => false) model)
    (structured : Structured (fun _ => false) ((items list).map (simple_entry tree list)) model)
    (real : ∀ place ∈ places STreeNode.id [] model.rows, place.2.isVirtual = false) :
    sync null (fun _ => false) ((items list).map (simple_entry tree list)) model = model ↔ NullsHeld null tree list := by
  have coherent := simple_coherent returnless tree
  have taken := Taken.all_taken sound.tidy coherent.once
  have all : ∀ entry ∈ (items list).map (simple_entry tree list), Matched model.rows entry := by
    intro entry among
    obtain ⟨place, there, isPath, isId, isReal⟩ := structured.shown entry among
    refine ⟨place.2, ?_, isId, (coherent.test entry among _).mpr ((sound.real place there isReal).trans isPath)⟩
    rw [← places_nodes STreeNode.id model.rows []]
    exact List.mem_map_of_mem there
  -- Every node is of an entry, at the path of it.
  have entry_of : ∀ place ∈ places STreeNode.id [] model.rows, ∃ cur ∈ items list, cur.id = place.2.id ∧ (simple_entry tree list cur).path = place.1 := by
    intro place there
    have member : place.2 ∈ nodes model.rows := by
      rw [← places_nodes STreeNode.id model.rows []]
      exact List.mem_map_of_mem there
    obtain ⟨entry, among, isId⟩ := structured.real place.2 member (real place there)
    obtain ⟨own, ownThere, isPath, ownId, -⟩ := structured.shown entry among
    rw [sound.tidy.same_place ownThere there (ownId.trans isId)] at isPath
    obtain ⟨cur, isCur, rfl⟩ := List.mem_map.mp among
    exact ⟨cur, isCur, isId, isPath.symm⟩
  rw [sync_matched sound.tidy coherent.once all]
  constructor
  · intro same cur member isNull
    obtain ⟨place, there, isPath, isId, isReal⟩ := structured.shown _ (List.mem_map_of_mem member)
    have left : place ∈ places STreeNode.id [] model.rows := there
    rw [← same, purge_root_places] at left
    have leaves : ∀ {node : STreeNode α}, null node.id = true → stays null (fun _ => false)
        (((items list).map (simple_entry tree list)).foldl (Loop.take model.rows) model.begin).old node = false := by
      intro node isNull
      simp [stays, isNull]
    have placeNull : null place.2.id = true := by rw [isId]; exact isNull
    rcases prune_reason STreeNode.id left with stay | ⟨below, belowLeft, stay, isBelow⟩
    · rw [leaves placeNull] at stay
      cases stay
    · obtain ⟨other, isOther, otherId, otherPath⟩ := entry_of below ((prune_sublist STreeNode.id _ model.rows []).subset belowLeft)
      have notNull : null other.id = false := by
        by_contra isNull
        rw [Bool.not_eq_false, otherId] at isNull
        rw [leaves isNull] at stay
        cases stay
      rw [isPath, isId, ← otherPath] at isBelow
      cases tree with
      | false => simp [simple_entry] at isBelow
      | true => exact ⟨rfl, other, isOther, notNull, (above_iff returnless member isOther).mp isBelow⟩
  · intro held
    have compatible := compatible_again returnless structured real held
    have left : prune (stays null (fun _ => false) (((items list).map (simple_entry tree list)).foldl (Loop.take model.rows) model.begin).old)
        model.rows = model.rows := by
      refine prune_all (le_antisymm (nodes_prune _ _).length_le ?_)
      rw [← List.length_map (f := STreeNode.id), ← List.length_map (f := STreeNode.id)]
      refine (sound.tidy.ids.subperm ?_).length_le
      intro id isId
      obtain ⟨node, member, rfl⟩ := List.mem_map.mp isId
      rw [← places_nodes STreeNode.id model.rows []] at member
      obtain ⟨place, there, rfl⟩ := List.mem_map.mp member
      obtain ⟨cur, isCur, curId, -⟩ := entry_of place there
      obtain ⟨kept, keptThere, keptId⟩ := @Sound.left_staying _ _ _ _ (fun _ => false) model null _ _ sound coherent compatible taken
        _ (List.mem_map_of_mem isCur) (structured.shown _ (List.mem_map_of_mem isCur))
      refine List.mem_map.mpr ⟨kept.2, ?_, keptId.trans curId⟩
      rw [← places_nodes STreeNode.id _ []]
      exact List.mem_map_of_mem keptThere
    have wanted : ∀ node ∈ nodes model.rows,
        bRemove null (((items list).map (simple_entry tree list)).foldl (Loop.take model.rows) model.begin).old node = false := by
      have all := @Sound.wanted _ _ _ _ (fun _ => false) model null _ _ sound coherent compatible taken (by simp)
      rwa [left] at all
    rw [purge_root, purge_unchanged left wanted]
    rfl

end

theorem returnless_of_less (less : ∀ cur ∈ items list, cur.parentId < cur.id) : Returnless list := by
  have above : ∀ {cur above : Item α}, TransGen (fun cur parent => parent_item list cur = some parent) cur above → cur ∈ items list →
      above ∈ items list ∧ above.id < cur.id := by
    intro cur above climb member
    induction climb with
    | single first => exact ⟨(parent_item_mem first).1, (parent_item_mem first).2.trans_lt (less _ member)⟩
    | tail _ last ih => exact ⟨(parent_item_mem last).1, ((parent_item_mem last).2.trans_lt (less _ ih.1)).trans ih.2⟩
  exact fun cur member cycle => lt_irrefl _ (above cycle member).2

end

/-- A child and its parent, which has no parent in the list. -/
def chain : OrdMap Nat Nat := (OrdMap.empty.insert 2 1).insert 1 0

/-- An entry that is its own parent. -/
def alone : OrdMap Nat Nat := OrdMap.empty.insert 1 1

/-- Two entries that are parents of each other. -/
def ring : OrdMap Nat Nat := (OrdMap.empty.insert 1 2).insert 2 1

end TaskExplorer.TreeStability
