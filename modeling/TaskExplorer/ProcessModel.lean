import TaskExplorer.Transition
import TaskExplorer.TreeSync

/-!
# The process tree and the simple tree

`CProcessModel` and `CSimpleTreeModel` find the path of an entry by going up from parent
to parent, and test the path of its node in the same way. The process tree does not show every
process of its lists, but a process that is not shown is still a step of the paths below it.
-/

namespace TaskExplorer.ProcessModel
open Forest OrderedMap TreeItemModel Transition

/-! ## Going up -/

section Climbing
variable {β α : Type} [DecidableEq α] (up : β → Option β) (label : β → α) (base : β → List α)

def make_path : Nat → β → List α
  | 0, _ => []
  | fuel + 1, cur =>
    match up cur with
    | some parent => make_path fuel parent ++ [label parent]
    | none => base cur

/-- `ends` is the test where there is no parent any more. -/
def test_path (ends : β → List α → Nat → Bool) : Nat → List α → Nat → β → Bool
  | 0, _, _, _ => false
  | fuel + 1, path, index, cur =>
    match up cur with
    | some parent =>
      if index ≥ path.length ∨ path[path.length - index - 1]? ≠ some (label parent) then false
      else test_path ends fuel path (index + 1) parent
    | none => ends cur path index

/-- The way up ends within so many steps. -/
def Short : Nat → β → Prop
  | 0, _ => False
  | fuel + 1, cur => ∀ parent, up cur = some parent → Short fuel parent

def Acyclic (carrier : List β) : Prop := ∀ cur ∈ carrier, ¬ Relation.TransGen (fun cur parent => up cur = some parent) cur cur

variable {up}

theorem short_of_seen {carrier : List β} (acyclic : Acyclic up carrier) (closed : ∀ cur ∈ carrier, ∀ parent, up cur = some parent → parent ∈ carrier)
    {seen : List β} {cur : β} (member : cur ∈ carrier) (subset : seen ⊆ carrier) (once : seen.Nodup)
    (below : ∀ other ∈ seen, Relation.TransGen (fun cur parent => up cur = some parent) other cur) {fuel : Nat}
    (enough : carrier.length ≤ seen.length + fuel) : Short up fuel cur := by
  have notSeen : cur ∉ seen := fun isSeen => acyclic cur member (below cur isSeen)
  have onceMore : (cur :: seen).Nodup := List.nodup_cons.mpr ⟨notSeen, once⟩
  have subsetMore : cur :: seen ⊆ carrier := List.cons_subset.mpr ⟨member, subset⟩
  induction fuel generalizing seen cur with
  | zero =>
    have longer := (onceMore.subperm subsetMore).length_le
    rw [List.length_cons] at longer
    omega
  | succ fuel ih =>
    intro parent isParent
    have parentMember := closed cur member parent isParent
    have parentBelow : ∀ other ∈ cur :: seen, Relation.TransGen (fun cur parent => up cur = some parent) other parent := by
      intro other isOther
      rcases List.mem_cons.mp isOther with rfl | older
      · exact .single isParent
      · exact (below other older).tail isParent
    have parentNew : parent ∉ cur :: seen := fun isSeen => acyclic parent parentMember (parentBelow parent isSeen)
    refine ih parentMember subsetMore onceMore parentBelow ?_ parentNew (List.nodup_cons.mpr ⟨parentNew, onceMore⟩)
      (List.cons_subset.mpr ⟨parentMember, subsetMore⟩)
    rw [List.length_cons]
    omega

theorem short_of_acyclic {carrier : List β} (acyclic : Acyclic up carrier)
    (closed : ∀ cur ∈ carrier, ∀ parent, up cur = some parent → parent ∈ carrier) {cur : β} (member : cur ∈ carrier) :
    Short up carrier.length cur :=
  @short_of_seen _ up carrier acyclic closed [] cur member (List.nil_subset _) List.nodup_nil (by simp) _ (by simp)

variable {label base}

omit [DecidableEq α] in
theorem make_path_fuel {fuel more : Nat} {cur : β} (short : Short up fuel cur) (enough : fuel ≤ more) :
    make_path up label base more cur = make_path up label base fuel cur := by
  induction fuel generalizing more cur with
  | zero => exact short.elim
  | succ fuel ih =>
    cases more with
    | zero => omega
    | succ more =>
      rw [make_path, make_path]
      cases isParent : up cur with
      | none => rfl
      | some parent =>
        dsimp only
        rw [ih (short parent isParent) (Nat.le_of_succ_le_succ enough)]

omit [DecidableEq α] in
theorem make_path_up {fuel : Nat} {cur parent : β} (short : Short up fuel cur) (isParent : up cur = some parent) :
    make_path up label base fuel cur = make_path up label base fuel parent ++ [label parent] := by
  cases fuel with
  | zero => exact short.elim
  | succ fuel => rw [make_path, isParent, make_path_fuel (short parent isParent) (Nat.le_succ fuel)]

omit [DecidableEq α] in
theorem make_path_congr {carrier : List β} {other : β → Option β} (same : ∀ cur ∈ carrier, other cur = up cur)
    (closed : ∀ cur ∈ carrier, ∀ parent, up cur = some parent → parent ∈ carrier) {cur : β} (member : cur ∈ carrier) (fuel : Nat) :
    make_path other label base fuel cur = make_path up label base fuel cur := by
  induction fuel generalizing cur with
  | zero => rfl
  | succ fuel ih =>
    rw [make_path, make_path, same cur member]
    cases isParent : up cur with
    | none => rfl
    | some parent =>
      dsimp only
      rw [ih (closed cur member parent isParent)]

theorem test_path_iff {head : Nat} {ends : β → List α → Nat → Bool}
    (atEnd : ∀ cur path index, ends cur path index = true ↔
      index ≤ path.length ∧ ∃ first : List α, first.length = head ∧ path.take (path.length - index) = first ++ base cur)
    {fuel : Nat} {cur : β} (short : Short up fuel cur) (path : List α) (index : Nat) :
    test_path up label ends fuel path index cur = true ↔
      index ≤ path.length ∧ ∃ first : List α, first.length = head ∧ path.take (path.length - index) = first ++ make_path up label base fuel cur := by
  induction fuel generalizing cur index with
  | zero => exact short.elim
  | succ fuel ih =>
    rw [test_path, make_path]
    cases isParent : up cur with
    | none => exact atEnd cur path index
    | some parent =>
      dsimp only
      by_cases inside : index < path.length
      · have position : path.length - index - 1 < path.length := by omega
        have cut : path.take (path.length - index) = path.take (path.length - (index + 1)) ++ [path[path.length - index - 1]] := by
          have split := List.take_succ_eq_append_getElem position
          rwa [show path.length - index - 1 + 1 = path.length - index by omega] at split
        simp only [List.getElem?_eq_getElem position, ge_iff_le, not_le.mpr inside, false_or, ne_eq, Option.some.injEq, ite_not, cut,
          ← List.append_assoc]
        by_cases isLabel : path[path.length - index - 1] = label parent
        · rw [if_pos isLabel, ih (short parent isParent), isLabel]
          simp only [List.append_cancel_right_eq, inside.le, true_and, Nat.succ_le_of_lt inside]
        · rw [if_neg isLabel]
          refine ⟨fun impossible => (by cases impossible), ?_⟩
          rintro ⟨-, first, -, same⟩
          exact absurd (List.append_inj_right' same rfl) (by simpa using isLabel)
      · rw [if_pos (.inl (not_lt.mp inside))]
        refine ⟨fun impossible => (by cases impossible), ?_⟩
        rintro ⟨-, first, -, same⟩
        have nothing : path.length - index = 0 := by omega
        rw [nothing, List.take_zero] at same
        simp at same

omit [DecidableEq α] in
theorem make_path_steps {carrier : List β} {head : β → List α} {pos : α → List α} {fuel : Nat}
    (closed : ∀ cur ∈ carrier, ∀ parent, up cur = some parent → parent ∈ carrier ∧ head parent = head cur)
    (shorts : ∀ cur ∈ carrier, Short up fuel cur) (own : ∀ cur ∈ carrier, pos (label cur) = head cur ++ make_path up label base fuel cur)
    (bases : ∀ cur ∈ carrier, ∀ upper step lower, head cur ++ base cur = upper ++ step :: lower → pos step = upper)
    {cur : β} (member : cur ∈ carrier) {upper : List α} {step : α} (lower : List α) :
    head cur ++ make_path up label base fuel cur = upper ++ step :: lower → pos step = upper := by
  have general : ∀ rest, Short up rest cur → rest ≤ fuel → ∀ lower, head cur ++ make_path up label base fuel cur = upper ++ step :: lower →
      pos step = upper := by
    intro rest
    induction rest generalizing cur with
    | zero => exact fun short => short.elim
    | succ rest ih =>
      intro short enough lower split
      cases isParent : up cur with
      | none =>
        refine bases cur member upper step lower ?_
        rw [← split]
        cases fuel with
        | zero => omega
        | succ fuel => rw [make_path, isParent]
      | some parent =>
        obtain ⟨parentMember, sameHead⟩ := closed cur member parent isParent
        rw [make_path_up (shorts cur member) isParent, ← List.append_assoc, ← sameHead] at split
        rcases List.eq_nil_or_concat lower with rfl | ⟨lower, last, rfl⟩
        · obtain ⟨isUpper, isStep⟩ := List.append_inj' split rfl
          rw [← List.singleton_inj.mp isStep, own parent parentMember, isUpper]
        · rw [List.concat_eq_append, ← List.cons_append, ← List.append_assoc] at split
          exact ih parentMember (short parent isParent) (by omega) lower (List.append_inj_left' split rfl)
  exact general fuel (shorts cur member) le_rfl lower

end Climbing

/-! ## The simple tree -/

section Simple
variable {α : Type} [LinearOrder α]

/-- An entry of a list: its `ID` and its `ParentID`. -/
structure Item (α : Type) where
  id : α
  parentId : α
deriving DecidableEq, Repr

/-- A list has the parent of every id. -/
def items (list : OrdMap α α) : List (Item α) := list.entries.map (fun pair => ⟨pair.1, pair.2⟩)

def parent_item (list : OrdMap α α) (cur : Item α) : Option (Item α) := (list.get cur.parentId).map (fun parentId => ⟨cur.parentId, parentId⟩)

def simple_make_path (list : OrdMap α α) (cur : Item α) : List α :=
  make_path (fun cur => if cur.parentId ≠ cur.id then parent_item list cur else none) Item.id (fun _ => []) list.entries.length cur

def simple_test_path (list : OrdMap α α) (path : List α) (cur : Item α) : Bool :=
  test_path (parent_item list) Item.id (fun _ path index => path.length == index) list.entries.length path 0 cur

def simple_entry (tree : Bool) (list : OrdMap α α) (cur : Item α) : Entry α where
  id := cur.id
  path := bif tree then simple_make_path list cur else []
  test path := bif tree then simple_test_path list path cur else path.isEmpty

/-- The list that is shown now is kept beside the model. -/
structure SimpleTree (α : Type) [LinearOrder α] where
  model : Model α
  tree : Bool
  synced : List (Entry α)

inductive SimpleCall (α : Type) [LinearOrder α] where
  | sync (list : OrdMap α α)
  | clear
  | setTree (tree : Bool)

def simple_initial : SimpleTree α := ⟨initial, true, []⟩

def simple_step (null : α → Bool) (state : SimpleTree α) : SimpleCall α → Option (SimpleTree α)
  | .sync list =>
    let entries := (items list).map (simple_entry state.tree list)
    some { state with model := sync null (fun _ => false) entries state.model, synced := entries }
  | .clear => some { state with model := clear null (fun _ => false) state.model, synced := [] }
  | .setTree tree => some { state with tree := tree }

theorem mem_items {list : OrdMap α α} {cur : Item α} : cur ∈ items list ↔ list.get cur.id = some cur.parentId := by
  rw [items, List.mem_map, ← OrdMap.mem_entries]
  constructor
  · rintro ⟨pair, member, rfl⟩
    exact member
  · exact fun member => ⟨(cur.id, cur.parentId), member, rfl⟩

theorem parent_item_mem {list : OrdMap α α} {cur parent : Item α} (isParent : parent_item list cur = some parent) :
    parent ∈ items list ∧ parent.id = cur.parentId := by
  obtain ⟨parentId, found, rfl⟩ := Option.map_eq_some_iff.mp isParent
  exact ⟨mem_items.mpr found, rfl⟩

def simple_pos (tree : Bool) (list : OrdMap α α) (id : α) : List α :=
  match list.get id with
  | some parentId => (simple_entry tree list ⟨id, parentId⟩).path
  | none => []

section
variable {list : OrdMap α α} (acyclic : Acyclic (parent_item list) (items list))
include acyclic

theorem simple_short {cur : Item α} (member : cur ∈ items list) : Short (parent_item list) list.entries.length cur := by
  have short := short_of_acyclic acyclic (fun _ _ _ isParent => (parent_item_mem isParent).1) member
  rwa [items, List.length_map] at short

theorem simple_path_eq {cur : Item α} (member : cur ∈ items list) :
    simple_make_path list cur = make_path (parent_item list) Item.id (fun _ => []) list.entries.length cur := by
  refine @make_path_congr _ _ (parent_item list) _ _ (items list) _ ?_ (fun _ _ _ isParent => (parent_item_mem isParent).1) _ member _
  intro cur member
  by_cases own : cur.parentId = cur.id
  · have cycle : parent_item list cur = some cur := by
      rw [parent_item, own, mem_items.mp member, ← own]
      cases cur
      cases own
      rfl
    exact absurd (.single cycle) (acyclic cur member)
  · exact if_pos own

theorem simple_coherent (tree : Bool) :
    Coherent ((items list).map (simple_entry tree list)) (simple_pos tree list) (fun _ => false) := by
  have own : ∀ cur ∈ items list, simple_pos tree list cur.id = (simple_entry tree list cur).path := by
    intro cur member
    rw [simple_pos, mem_items.mp member]
  refine ⟨?_, ?_, ?_, ?_, fun id isTop => by cases isTop⟩
  · intro entry among
    obtain ⟨cur, member, rfl⟩ := List.mem_map.mp among
    exact (own cur member).symm
  · intro entry among upper step lower
    obtain ⟨cur, member, rfl⟩ := List.mem_map.mp among
    cases tree with
    | false => simp [simple_entry]
    | true =>
      intro split
      have isPath : (simple_entry true list cur).path = make_path (parent_item list) Item.id (fun _ => []) list.entries.length cur :=
        simple_path_eq acyclic member
      rw [isPath] at split
      refine @make_path_steps _ _ (parent_item list) Item.id (fun _ => []) (items list) (fun _ => []) (simple_pos true list) list.entries.length
        (fun _ _ _ isParent => ⟨(parent_item_mem isParent).1, rfl⟩) (fun _ => simple_short acyclic) ?_ (by simp) cur member upper step lower split
      intro other isOther
      rw [own other isOther]
      exact simple_path_eq acyclic isOther
  · rw [List.map_map]
    have ids : (items list).map (Entry.id ∘ simple_entry tree list) = list.entries.map Prod.fst := by
      rw [items, List.map_map]
      rfl
    rw [ids]
    exact list.keys_nodup
  · intro entry among path
    obtain ⟨cur, member, rfl⟩ := List.mem_map.mp among
    cases tree with
    | false => simp [simple_entry]
    | true =>
      have atEnd : ∀ (cur : Item α) (path : List α) (index : Nat), (path.length == index) = true ↔
          index ≤ path.length ∧ ∃ first : List α, first.length = 0 ∧ path.take (path.length - index) = first ++ [] := by
        intro cur path index
        simp only [beq_iff_eq, List.length_eq_zero_iff, exists_eq_left, List.nil_append, List.take_eq_nil_iff]
        constructor
        · rintro rfl
          simp
        · rintro ⟨enough, nothing | rfl⟩
          · omega
          · simpa [eq_comm] using enough
      refine (test_path_iff atEnd (simple_short acyclic member) path 0).trans ?_
      simp only [Nat.zero_le, true_and, Nat.sub_zero, List.take_length, List.length_eq_zero_iff, exists_eq_left, List.nil_append]
      rw [← simple_path_eq acyclic member]
      rfl

theorem simple_steps_shown (tree : Bool) {cur : Item α} (member : cur ∈ items list) {upper lower : List α} {step : α}
    (split : (simple_entry tree list cur).path = upper ++ step :: lower) : Shown ((items list).map (simple_entry tree list)) step := by
  have general : ∀ fuel (cur : Item α), ∀ step ∈ make_path (parent_item list) Item.id (fun _ => []) fuel cur,
      Shown ((items list).map (simple_entry tree list)) step := by
    intro fuel
    induction fuel with
    | zero => simp [make_path]
    | succ fuel ih =>
      intro cur step among
      rw [make_path] at among
      cases isParent : parent_item list cur with
      | none => simp [isParent] at among
      | some parent =>
        rw [isParent] at among
        rcases List.mem_append.mp among with above | last
        · exact ih parent step above
        · rw [List.mem_singleton.mp last]
          exact ⟨simple_entry tree list parent, List.mem_map_of_mem (parent_item_mem isParent).1, rfl⟩
  cases tree with
  | false => simp [simple_entry] at split
  | true =>
    have isPath : (simple_entry true list cur).path = make_path (parent_item list) Item.id (fun _ => []) list.entries.length cur :=
      simple_path_eq acyclic member
    refine general list.entries.length cur step ?_
    rw [← isPath, split]
    simp

end

/-- An entry that stays and whose id is null has another one below it that stays. -/
def NullsHold (null : α → Bool) (entries : List (Entry α)) (rows : Rows (STreeNode α)) : Prop :=
  ∀ entry ∈ entries, Staying rows entry → null entry.id = true →
    ∃ other ∈ entries, Staying rows other ∧ null other.id = false ∧ entry.path ++ [entry.id] <+: other.path

/-- A list has no cycles, and what holds of its null ids. -/
def SimpleAllowed (null : α → Bool) (state : SimpleTree α) : SimpleCall α → Prop
  | .sync list => Acyclic (parent_item list) (items list) ∧ NullsHold null ((items list).map (simple_entry state.tree list)) state.model.rows
  | .clear => True
  | .setTree _ => True

structure SimpleSound (state : SimpleTree α) : Prop where
  sound : Sound (fun _ => false) state.model
  structured : Structured (fun _ => false) state.synced state.model
  real : ∀ place ∈ places STreeNode.id [] state.model.rows, place.2.isVirtual = false

theorem initial_structured (pinned : α → Bool) : Structured pinned [] (initial : Model α) where
  numbered := initial_tidy.numbered
  linked := initial_tidy.linked
  mapped := initial_tidy.mapped
  ids := initial_tidy.ids
  ptrs := initial_tidy.ptrs
  shown := by simp
  real := by simp [initial, nodes]
  virtual := by simp [initial]

theorem real_of_structured {model : Model α} {synced : List (Entry α)} (structured : Structured (fun _ => false) synced model)
    (tidy : Tidy model) (steps : ∀ entry ∈ synced, ∀ upper step lower, entry.path = upper ++ step :: lower → Shown synced step) :
    ∀ place ∈ places STreeNode.id [] model.rows, place.2.isVirtual = false := by
  intro place there
  by_contra isVirtual
  rw [Bool.not_eq_false] at isVirtual
  rcases structured.virtual place there isVirtual with ⟨below, belowThere, isReal, lower, isLower⟩ | impossible | ⟨below, -, impossible, -⟩
  · have member : below.2 ∈ nodes model.rows := by
      rw [← places_nodes STreeNode.id model.rows []]
      exact List.mem_map_of_mem belowThere
    obtain ⟨entry, among, isId⟩ := structured.real below.2 member isReal
    obtain ⟨own, ownThere, isPath, ownId, -⟩ := structured.shown entry among
    have same := tidy.same_place ownThere belowThere (ownId.trans isId)
    rw [List.append_assoc, List.singleton_append] at isLower
    obtain ⟨shown, isShown, shownId⟩ := steps entry among place.1 place.2.id lower (by rw [isLower, ← isPath, same])
    obtain ⟨other, otherThere, -, otherId, otherReal⟩ := structured.shown shown isShown
    rw [tidy.same_place otherThere there (otherId.trans shownId), isVirtual] at otherReal
    cases otherReal
  · cases impossible
  · cases impossible

theorem SimpleSound.call {null : α → Bool} {state later : SimpleTree α} {event : SimpleCall α} (holds : SimpleSound state)
    (allowed : SimpleAllowed null state event) (moved : simple_step null state event = some later) : SimpleSound later := by
  cases event with
  | sync list =>
    cases moved
    obtain ⟨acyclic, nulls⟩ := allowed
    have coherent := simple_coherent acyclic state.tree
    have compatible : Compatible null ((items list).map (simple_entry state.tree list)) state.model.rows := by
      refine ⟨?_, fun _ _ _ place there _ => holds.real place there, nulls⟩
      rintro entry among - place there ⟨lower, isLower⟩
      obtain ⟨cur, member, rfl⟩ := List.mem_map.mp among
      rw [List.append_assoc, List.singleton_append] at isLower
      exact iff_of_true (holds.real place there) (simple_steps_shown acyclic state.tree member isLower.symm)
    obtain ⟨sound, structured⟩ := @Sound.sync _ _ _ _ (fun _ => false) _ null _ holds.sound coherent compatible (by simp)
    refine ⟨sound, structured, real_of_structured structured sound.tidy ?_⟩
    intro entry among upper step lower split
    obtain ⟨cur, member, rfl⟩ := List.mem_map.mp among
    exact simple_steps_shown acyclic state.tree member split
  | clear =>
    cases moved
    obtain ⟨sound, structured⟩ := @Sound.clear _ _ (fun _ => false) _ null _ holds.sound (by simp)
    exact ⟨sound, structured, real_of_structured structured sound.tidy (by simp)⟩
  | setTree tree =>
    cases moved
    exact ⟨holds.sound, holds.structured, holds.real⟩

theorem simple_structured {null : α → Bool} {state : SimpleTree α} (run : Run (simple_step null) (SimpleAllowed null) simple_initial state) :
    SimpleSound state :=
  run.invariant SimpleSound ⟨initial_sound _, initial_structured _, by simp [simple_initial, initial]⟩ SimpleSound.call

end Simple

/-! ## The process tree -/

/-- The ids of the tree: a process is a number, a branch a text that begins with what it is. -/
inductive Id where
  | process (uid : UInt64)
  | machine (system : UInt64)
  | user (scope : UInt64) (key : String)
deriving DecidableEq, Repr

/-- What the model asks of a process; `groupKey` is what `GetGroupKey` makes of it. -/
structure Process where
  objectUid : UInt64
  parentUid : UInt64
  system : UInt64
  groupKey : String
  reflected : Bool
deriving DecidableEq, Repr

structure Switches where
  tree : Bool
  multiUser : Bool
  multiMachine : Bool
deriving DecidableEq, Repr

abbrev ProcessList := OrdMap UInt64 Process

section Processes

def MkMachineBranch (system : UInt64) : Id := .machine system

def MkUserBranch (switches : Switches) (key : String) (system : UInt64) : Id := .user (bif switches.multiMachine then system else 0) key

def same_user (process parent : Process) : Bool := process.groupKey == parent.groupKey

def same_system (process parent : Process) : Bool := process.system == parent.system

variable (switches : Switches) (validate_parent : Process → Process → Bool) (list : ProcessList)

/-- The parent of a process that its path goes on with. -/
def parent_process (process : Process) : Option Process :=
  (list.get process.parentUid).filter (fun parent =>
    same_system process parent && validate_parent process parent && (!switches.multiUser || same_user process parent))

def branch_path (process : Process) : List Id :=
  bif switches.multiUser then [MkUserBranch switches process.groupKey process.system] else []

def MakeProcPath (process : Process) : List Id :=
  make_path (parent_process switches validate_parent list) (fun parent => .process parent.objectUid) (branch_path switches) list.entries.length process

def head_path (process : Process) : List Id := bif switches.multiMachine then [MkMachineBranch process.system] else []

def MakePath (process : Process) : List Id :=
  head_path switches process ++ bif switches.tree then MakeProcPath switches validate_parent list process else branch_path switches process

def TestProcPath (head : Nat) (path : List Id) (process : Process) : Bool :=
  test_path (parent_process switches validate_parent list) (fun parent => .process parent.objectUid)
    (fun process path index =>
      bif switches.multiUser then path.length == head + index + 1 && path[head]? == some (MkUserBranch switches process.groupKey process.system)
      else path.length == head + index)
    list.entries.length path 0 process

def TestPath (path : List Id) (process : Process) : Bool :=
  if switches.multiMachine ∧ path.head? ≠ some (MkMachineBranch process.system) then false
  else
    let head := bif switches.multiMachine then 1 else 0
    bif switches.tree then TestProcPath switches validate_parent list head path process
    else bif switches.multiUser then
      path.length == head + 1 && path.getLast? == some (MkUserBranch switches process.groupKey process.system)
    else path.length == head

/-- The processes that `Sync` does not pass over. -/
def is_shown (process : Process) : Bool := !process.reflected && process.parentUid != 0

def process_entry (process : Process) : Entry Id where
  id := .process process.objectUid
  path := MakePath switches validate_parent list process
  test path := TestPath switches validate_parent list path process

def processes : List Process := list.entries.map Prod.snd

def process_entries (lists : List ProcessList) : List (Entry Id) :=
  lists.flatMap (fun list => ((processes list).filter is_shown).map (process_entry switches validate_parent list))

/-- `systems` are those of the cluster. -/
def IsBranchPinned (systems : List UInt64) (id : Id) : Bool :=
  switches.multiMachine &&
    match id with
    | .machine system => systems.contains system
    | _ => false

/-- The list that is shown now and the branches that are pinned are kept beside the model. -/
structure ProcessTree [LinearOrder Id] where
  model : Model Id
  switches : Switches
  synced : List (Entry Id)
  pinned : Id → Bool

inductive ProcessCall where
  | sync (lists : List ProcessList) (validate_parent : Process → Process → Bool) (systems : List UInt64)
  | clear (systems : List UInt64)
  | setTree (tree : Bool)
  | setMultiUser (set : Bool) (systems : List UInt64)
  | setMultiMachine (set : Bool) (systems : List UInt64)

variable [LinearOrder Id]

def process_initial : ProcessTree := ⟨initial, ⟨true, false, false⟩, [], fun _ => false⟩

def ProcessTree.sync (state : ProcessTree) (lists : List ProcessList) (validate_parent : Process → Process → Bool) (systems : List UInt64) :
    ProcessTree :=
  let entries := process_entries state.switches validate_parent lists
  let pinned := IsBranchPinned state.switches systems
  { state with model := TreeItemModel.sync (fun _ => false) pinned entries state.model, synced := entries, pinned := pinned }

def ProcessTree.clear (state : ProcessTree) (systems : List UInt64) : ProcessTree :=
  let pinned := IsBranchPinned state.switches systems
  { state with model := TreeItemModel.clear (fun _ => false) pinned state.model, synced := [], pinned := pinned }

def process_step (state : ProcessTree) : ProcessCall → Option ProcessTree
  | .sync lists validate_parent systems => some (state.sync lists validate_parent systems)
  | .clear systems => some (state.clear systems)
  | .setTree tree => some { state with switches := { state.switches with tree := tree } }
  | .setMultiUser set systems =>
    if state.switches.multiUser = set then some state
    else some (ProcessTree.clear { state with switches := { state.switches with multiUser := set } } systems)
  | .setMultiMachine set systems =>
    if state.switches.multiMachine = set then some state
    else some (ProcessTree.clear { state with switches := { state.switches with multiMachine := set } } systems)

/-! ## Where the processes are -/

def located (lists : List ProcessList) : List (ProcessList × Process) :=
  lists.flatMap (fun list => (processes list).map (fun process => (list, process)))

/-- Where an id is, shown or not. -/
def process_pos (lists : List ProcessList) : Id → List Id
  | .process uid =>
    match (located lists).find? (fun pair => pair.2.objectUid == uid) with
    | some pair => MakePath switches validate_parent pair.1 pair.2
    | none => []
  | .machine _ => []
  | .user scope _ => bif switches.multiMachine then [.machine scope] else []

def is_machine : Id → Bool
  | .machine _ => true
  | _ => false

/-- Object uids are unique, and no process is its own ancestor. -/
structure Distinct (lists : List ProcessList) : Prop where
  once : ((lists.flatMap processes).map Process.objectUid).Nodup
  acyclic : ∀ list ∈ lists, Acyclic (parent_process switches validate_parent list) (processes list)

variable {switches validate_parent list}

omit [LinearOrder Id] in
theorem parent_process_spec {process parent : Process} (isParent : parent_process switches validate_parent list process = some parent) :
    parent ∈ processes list ∧ parent.system = process.system := by
  obtain ⟨found, accepted⟩ := Option.filter_eq_some_iff.mp isParent
  rw [Bool.and_eq_true, Bool.and_eq_true] at accepted
  exact ⟨List.mem_map.mpr ⟨_, OrdMap.mem_entries.mpr found, rfl⟩, (eq_of_beq accepted.1.1).symm⟩

omit [LinearOrder Id] in
theorem branch_path_end (head : Nat) (process : Process) (path : List Id) (index : Nat) :
    (bif switches.multiUser then path.length == head + index + 1 && path[head]? == some (MkUserBranch switches process.groupKey process.system)
      else path.length == head + index) = true ↔
    index ≤ path.length ∧ ∃ first : List Id, first.length = head ∧ path.take (path.length - index) = first ++ branch_path switches process := by
  rw [branch_path]
  cases switches.multiUser with
  | true =>
    simp only [cond_true, Bool.and_eq_true, beq_iff_eq]
    constructor
    · rintro ⟨isLength, isUser⟩
      have inside : head < path.length := by omega
      refine ⟨by omega, path.take head, by simp; omega, ?_⟩
      rw [show path.length - index = head + 1 by omega, List.take_add_one, isUser]
      rfl
    · rintro ⟨enough, first, isHead, same⟩
      have lengths := congrArg List.length same
      simp only [List.length_take, List.length_append, List.length_singleton] at lengths
      have isLength : path.length = head + index + 1 := by omega
      refine ⟨isLength, ?_⟩
      rw [show path.length - index = head + 1 by omega] at same
      have here := congrArg (fun list => list[head]?) same
      simpa [List.getElem?_take, ← isHead] using here
  | false =>
    simp only [cond_false, beq_iff_eq, List.append_nil]
    constructor
    · rintro isLength
      exact ⟨by omega, _, by simp; omega, rfl⟩
    · rintro ⟨enough, first, isHead, same⟩
      have lengths := congrArg List.length same
      simp only [List.length_take] at lengths
      omega

omit [LinearOrder Id] in
omit [LinearOrder Id] in
theorem head_path_iff (process : Process) (path rest : List Id) :
    (¬ (switches.multiMachine ∧ path.head? ≠ some (MkMachineBranch process.system)) ∧
      ∃ first : List Id, first.length = (bif switches.multiMachine then 1 else 0) ∧ path = first ++ rest) ↔
    path = head_path switches process ++ rest := by
  rw [head_path]
  cases switches.multiMachine with
  | false => simp
  | true =>
    simp only [true_and, ne_eq, not_not, cond_true]
    constructor
    · rintro ⟨isFirst, first, isOne, rfl⟩
      obtain ⟨only, rfl⟩ := List.length_eq_one_iff.mp isOne
      simp only [List.singleton_append, List.head?_cons, Option.some.injEq] at isFirst
      rw [isFirst]
    · rintro rfl
      exact ⟨rfl, _, rfl, rfl⟩

omit [LinearOrder Id] in
theorem branch_steps (lists : List ProcessList) (process : Process) (upper : List Id) (step : Id) (lower : List Id)
    (split : head_path switches process ++ branch_path switches process = upper ++ step :: lower) :
    process_pos switches validate_parent lists step = upper := by
  rw [head_path, branch_path] at split
  cases machine : switches.multiMachine <;> cases user : switches.multiUser <;>
    simp only [machine, user, cond_true, cond_false, List.nil_append, List.append_nil, List.cons_append, List.nil_eq, List.append_eq_nil_iff,
      List.cons_ne_nil, and_false] at split
  all_goals
    rcases upper with _ | ⟨first, upper⟩
    · simp only [List.nil_append, List.cons.injEq] at split
      rw [← split.1]
      simp [process_pos, MkUserBranch, MkMachineBranch, machine]
    · simp only [List.cons_append, List.cons.injEq] at split
      rcases upper with _ | ⟨second, upper⟩
      · simp only [List.nil_append, List.cons.injEq, List.nil_eq, reduceCtorEq, and_false] at split
        try
          rw [← split.2.1, ← split.1]
          simp [process_pos, MkUserBranch, MkMachineBranch, machine]
      · simp at split

omit [LinearOrder Id] in
theorem test_path_short {process : Process}
    (short : switches.tree = true → Short (parent_process switches validate_parent list) list.entries.length process) (path : List Id) :
    TestPath switches validate_parent list path process = true ↔ path = MakePath switches validate_parent list process := by
  rw [TestPath, MakePath, ← head_path_iff]
  split_ifs with wrong
  · simp [wrong]
  · simp only [wrong, not_false_eq_true, true_and]
    cases tree : switches.tree with
    | true =>
      refine (test_path_iff (branch_path_end _) (short tree) path 0).trans ?_
      simp only [Nat.zero_le, true_and, Nat.sub_zero, List.take_length]
      rfl
    | false =>
      have ends := @branch_path_end switches (bif switches.multiMachine then 1 else 0) process path 0
      simp only [Nat.add_zero, Nat.zero_le, true_and, Nat.sub_zero, List.take_length] at ends
      rw [cond_false, cond_false, ← ends]
      cases switches.multiUser with
      | false => rfl
      | true =>
        simp only [cond_true, Bool.and_eq_true, beq_iff_eq, and_congr_right_iff]
        intro isLength
        rw [List.getLast?_eq_getElem?, isLength]
        rfl

section
variable {lists : List ProcessList} (distinct : Distinct switches validate_parent lists)
include distinct

omit [LinearOrder Id] in
theorem process_short (isList : list ∈ lists) {process : Process} (member : process ∈ processes list) :
    Short (parent_process switches validate_parent list) list.entries.length process := by
  have short := short_of_acyclic (distinct.acyclic list isList) (fun _ _ _ isParent => (parent_process_spec isParent).1) member
  rwa [processes, List.length_map] at short

omit [LinearOrder Id] in
theorem process_pos_own (isList : list ∈ lists) {process : Process} (member : process ∈ processes list) :
    process_pos switches validate_parent lists (.process process.objectUid) = MakePath switches validate_parent list process := by
  have here : (list, process) ∈ located lists := List.mem_flatMap.mpr ⟨list, isList, List.mem_map_of_mem member⟩
  have once : ((located lists).map (fun pair => pair.2.objectUid)).Nodup := by
    have same : (located lists).map (fun pair => pair.2.objectUid) = (lists.flatMap processes).map Process.objectUid := by
      simp only [located, List.map_flatMap, List.map_map]
      rfl
    rw [same]
    exact distinct.once
  rw [process_pos]
  cases found : (located lists).find? (fun pair => pair.2.objectUid == process.objectUid) with
  | none => simpa using List.find?_eq_none.mp found (list, process) here
  | some pair =>
    have sameUid : pair.2.objectUid = process.objectUid := by simpa using List.find?_some found
    rw [List.inj_on_of_nodup_map once (List.mem_of_find?_eq_some found) here sameUid]

omit [LinearOrder Id] in
theorem test_path_spec (isList : list ∈ lists) {process : Process} (member : process ∈ processes list) (path : List Id) :
    TestPath switches validate_parent list path process = true ↔ path = MakePath switches validate_parent list process :=
  test_path_short (fun _ => process_short distinct isList member) path

omit [LinearOrder Id] in
theorem process_coherent : Coherent (process_entries switches validate_parent lists) (process_pos switches validate_parent lists) is_machine := by
  have entries : ∀ entry ∈ process_entries switches validate_parent lists, ∃ list ∈ lists, ∃ process ∈ processes list,
      entry = process_entry switches validate_parent list process := by
    intro entry among
    obtain ⟨list, isList, isEntry⟩ := List.mem_flatMap.mp among
    obtain ⟨process, member, rfl⟩ := List.mem_map.mp isEntry
    exact ⟨list, isList, process, (List.mem_filter.mp member).1, rfl⟩
  refine ⟨?_, ?_, ?_, ?_, ?_⟩
  · intro entry among
    obtain ⟨list, isList, process, member, rfl⟩ := entries entry among
    exact (process_pos_own distinct isList member).symm
  · intro entry among upper step lower split
    obtain ⟨list, isList, process, member, rfl⟩ := entries entry among
    change head_path switches process ++ _ = _ at split
    cases isTree : switches.tree with
    | false =>
      rw [isTree] at split
      exact branch_steps lists process upper step lower split
    | true =>
      rw [isTree] at split
      refine @make_path_steps _ _ (parent_process switches validate_parent list) (fun parent => Id.process parent.objectUid) (branch_path switches)
        (processes list) (head_path switches) (process_pos switches validate_parent lists) list.entries.length ?_
        (fun _ => process_short distinct isList) ?_ (fun process _ => branch_steps lists process) process member upper step lower split
      · intro cur _ parent isParent
        obtain ⟨isMember, sameSystem⟩ := parent_process_spec isParent
        exact ⟨isMember, by rw [head_path, head_path, sameSystem]⟩
      · intro cur isCur
        rw [process_pos_own distinct isList isCur, MakePath, isTree]
        rfl
  · have ids : (process_entries switches validate_parent lists).map Entry.id =
        (lists.flatMap (fun list => ((processes list).filter is_shown).map Process.objectUid)).map Id.process := by
      simp only [process_entries, List.map_flatMap, List.map_map]
      rfl
    have injective : Function.Injective Id.process := fun one other same => Id.process.inj same
    rw [ids]
    refine List.Nodup.map injective ?_
    have once := distinct.once
    rw [List.map_flatMap] at once
    exact once.sublist (List.Sublist.flatMap_right lists (fun list _ => List.filter_sublist.map _))
  · intro entry among path
    obtain ⟨list, isList, process, member, rfl⟩ := entries entry among
    exact test_path_spec distinct isList member path
  · intro id isMachine
    cases id with
    | machine system =>
      refine ⟨rfl, ?_⟩
      rintro ⟨entry, among, isId⟩
      obtain ⟨list, isList, process, member, rfl⟩ := entries entry among
      cases isId
    | process uid => cases isMachine
    | user scope key => cases isMachine

end

/-- What `Sync` needs of its lists: nothing more of the others. -/
def ProcessAllowed (state : ProcessTree) : ProcessCall → Prop
  | .sync lists validate_parent _ => Distinct state.switches validate_parent lists ∧
    Compatible (fun _ => false) (process_entries state.switches validate_parent lists) state.model.rows
  | _ => True

structure ProcessSound (state : ProcessTree) : Prop where
  sound : Sound is_machine state.model
  structured : Structured state.pinned state.synced state.model

omit [LinearOrder Id] in
theorem pinned_machine (switches : Switches) (systems : List UInt64) (id : Id) (isPinned : IsBranchPinned switches systems id = true) :
    is_machine id = true := by
  cases id with
  | machine system => rfl
  | process uid => simp [IsBranchPinned] at isPinned
  | user scope key => simp [IsBranchPinned] at isPinned

theorem ProcessSound.clear {state : ProcessTree} (holds : ProcessSound state) (switches : Switches) (systems : List UInt64) :
    ProcessSound (ProcessTree.clear { state with switches := switches } systems) := by
  obtain ⟨sound, structured⟩ := @Sound.clear _ _ (IsBranchPinned switches systems) _ (fun _ => false) _ holds.sound (pinned_machine switches systems)
  exact ⟨sound, structured⟩

theorem ProcessSound.call {state later : ProcessTree} {event : ProcessCall} (holds : ProcessSound state) (allowed : ProcessAllowed state event)
    (moved : process_step state event = some later) : ProcessSound later := by
  cases event with
  | sync lists validate_parent systems =>
    cases moved
    obtain ⟨distinct, compatible⟩ := allowed
    obtain ⟨sound, structured⟩ := holds.sound.sync (process_coherent distinct) compatible (pinned_machine state.switches systems)
    exact ⟨sound, structured⟩
  | clear systems =>
    cases moved
    exact holds.clear state.switches systems
  | setTree tree =>
    cases moved
    exact ⟨holds.sound, holds.structured⟩
  | setMultiUser set systems =>
    rw [process_step] at moved
    split_ifs at moved <;> cases moved
    · exact holds
    · exact holds.clear _ systems
  | setMultiMachine set systems =>
    rw [process_step] at moved
    split_ifs at moved <;> cases moved
    · exact holds
    · exact holds.clear _ systems

theorem process_structured {state : ProcessTree} (run : Run process_step ProcessAllowed process_initial state) : ProcessSound state :=
  run.invariant ProcessSound ⟨initial_sound _, initial_structured _⟩ ProcessSound.call

/-- Both trees are structured after every call, where the process tree shows the nodes above an entry that stays exactly when it did
before, and the simple tree has no null ids on their own. -/
theorem trees_structured {α : Type} [LinearOrder α] (null : α → Bool) :
    (∀ state, Run (simple_step null) (SimpleAllowed null) simple_initial state → Structured (fun _ => false) state.synced state.model) ∧
    (∀ state, Run process_step ProcessAllowed process_initial state → Structured state.pinned state.synced state.model) :=
  ⟨fun _ run => (simple_structured run).structured, fun _ run => (process_structured run).structured⟩

/-- Only what the lists are promised to be. -/
def ProcessLawful (state : ProcessTree) : ProcessCall → Prop
  | .sync lists validate_parent _ => Distinct state.switches validate_parent lists
  | _ => True

end Processes

/-! ## One run that goes well and one that does not -/

def Id.code : Id → Nat ×ₗ (Nat ×ₗ String)
  | .process uid => toLex (0, toLex (uid.toNat, ""))
  | .machine system => toLex (1, toLex (system.toNat, ""))
  | .user scope key => toLex (2, toLex (scope.toNat, key))

theorem Id.code_injective : Function.Injective Id.code := by
  intro one other same
  cases one <;> cases other <;> simp [Id.code, UInt64.toNat_inj] at same ⊢ <;> exact same

/-- Processes first, then machines and accounts. -/
abbrev byKind : LinearOrder Id := LinearOrder.lift' Id.code Id.code_injective

theorem acyclic_of_rank {β : Type} {up : β → Option β} (rank : β → Nat) {carrier : List β}
    (falls : ∀ cur parent, up cur = some parent → rank parent < rank cur) : Acyclic up carrier := by
  have less : ∀ cur above, Relation.TransGen (fun cur parent => up cur = some parent) cur above → rank above < rank cur := by
    intro cur above path
    induction path with
    | single first => exact falls _ _ first
    | tail _ last ih => exact (falls _ _ last).trans ih
  exact fun cur _ cycle => lt_irrefl _ (less cur cur cycle)

/-- A process and its child, and the parent of the first. -/
def machineList (parentUid : UInt64) : ProcessList :=
  (OrdMap.empty.insert 10 ⟨1, parentUid, 7, "", false⟩).insert 20 ⟨2, 10, 7, "", false⟩

theorem machineList_distinct (switches : Switches) {parentUid : UInt64} (missing : parentUid ≠ 10 ∧ parentUid ≠ 20) :
    Distinct switches (fun _ _ => true) [machineList parentUid] := by
  refine ⟨by simp [machineList, processes, OrdMap.insert, OrdMap.empty, put], ?_⟩
  intro list isList
  rw [List.mem_singleton.mp isList]
  -- The child asks for uid 10, which is the process; the process asks for one that is not there.
  refine acyclic_of_rank (fun process => if process.parentUid = 10 then 1 else if process.parentUid = 20 then 2 else 0) ?_
  intro cur parent isParent
  have found := (Option.filter_eq_some_iff.mp isParent).1
  rw [machineList, OrdMap.get_insert, OrdMap.get_insert, OrdMap.get_empty] at found
  split_ifs at found with second first
  · rw [← Option.some.inj found, ← second]
    decide
  · rw [← Option.some.inj found, ← first]
    simp [missing.1, missing.2]

def simpleList (pairs : List (Nat × Nat)) : OrdMap Nat Nat := pairs.foldl (fun list pair => list.insert pair.1 pair.2) OrdMap.empty

/-- The first entry goes, so the second moves to the top and takes the third with it; a process has its child below it. -/
theorem trees_structured_moved : letI := byKind
    ∃ (state : SimpleTree Nat) (processes : ProcessTree),
      runs (simple_step (fun _ => false)) simple_initial [.sync (simpleList [(1, 0), (2, 1), (3, 2)]), .sync (simpleList [(2, 1), (3, 2), (4, 3)])] =
        some state ∧
      runs process_step process_initial [.sync [machineList 99] (fun _ _ => true) [7]] = some processes ∧
      (places STreeNode.id [] state.model.rows).map (fun place => (place.1, place.2.id)) = [([], 2), ([2], 3), ([2, 3], 4)] ∧
      (places STreeNode.id [] processes.model.rows).map (fun place => (place.1, place.2.id)) = [([], .process 1), ([.process 1], .process 2)] ∧
      Structured (fun _ => false) state.synced state.model ∧ Structured processes.pinned processes.synced processes.model := by
  let := byKind
  have lower : ∀ pairs ∈ [[(1, 0), (2, 1), (3, 2)], [(2, 1), (3, 2), (4, 3)]], Acyclic (parent_item (simpleList pairs)) (items (simpleList pairs)) := by
    have falls : ∀ pairs : List (Nat × Nat), (∀ pair ∈ (simpleList pairs).entries, pair.2 < pair.1) →
        Acyclic (parent_item (simpleList pairs)) (items (simpleList pairs)) := by
      intro pairs smaller
      refine acyclic_of_rank Item.parentId ?_
      intro cur parent isParent
      obtain ⟨member, isId⟩ := parent_item_mem isParent
      exact isId ▸ smaller _ (OrdMap.mem_entries.mpr (mem_items.mp member))
    intro pairs isPairs
    refine falls pairs ?_
    revert pairs
    decide
  have simpleMeets : Meets (simple_step (fun _ => false)) (SimpleAllowed (fun _ => false)) simple_initial
      [.sync (simpleList [(1, 0), (2, 1), (3, 2)]), .sync (simpleList [(2, 1), (3, 2), (4, 3)])] :=
    ⟨⟨lower _ (by simp), fun _ _ _ isNull => (by cases isNull)⟩, ⟨lower _ (by simp), fun _ _ _ isNull => (by cases isNull)⟩, trivial⟩
  have processMeets : Meets process_step ProcessAllowed process_initial [.sync [machineList 99] (fun _ _ => true) [7]] := by
    refine ⟨⟨machineList_distinct _ (by decide), ?_, ?_, ?_⟩, trivial⟩
    · intro entry _ staying
      obtain ⟨place, there, -⟩ := staying
      cases there
    · intro entry _ _ place there
      cases there
    · intro entry _ _ isNull
      cases isNull
  have both := trees_structured (fun _ : Nat => false)
  exact ⟨_, _, rfl, rfl, by decide +kernel, by decide +kernel, both.1 _ (Run.of_runs .start simpleMeets rfl),
    both.2 _ (Run.of_runs .start processMeets rfl)⟩

/-- A process that is passed over, while its child stays, is left in the tree. -/
theorem passed_over_left : letI := byKind
    ∃ state, Run process_step ProcessLawful process_initial state ∧ ¬ Structured state.pinned state.synced state.model := by
  let := byKind
  have meets : Meets process_step ProcessLawful process_initial
      [.sync [machineList 99] (fun _ _ => true) [], .sync [machineList 0] (fun _ _ => true) []] :=
    ⟨machineList_distinct _ (by decide), machineList_distinct _ (by decide), trivial⟩
  refine ⟨_, Run.of_runs .start meets rfl, fun structured => ?_⟩
  have real : (fun state : ProcessTree => ∃ node ∈ nodes state.model.rows, node.isVirtual = false ∧ ∀ entry ∈ state.synced, entry.id ≠ node.id)
      (ProcessTree.sync (ProcessTree.sync process_initial [machineList 99] (fun _ _ => true) []) [machineList 0] (fun _ _ => true) []) :=
    ⟨⟨2, .process 1, 1, [], false⟩, by decide +kernel, rfl, by decide +kernel⟩
  obtain ⟨node, member, isReal, absent⟩ := real
  obtain ⟨entry, among, isId⟩ := structured.real node member isReal
  exact absent entry among isId

end TaskExplorer.ProcessModel
