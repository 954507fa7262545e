import TaskExplorer.VariantHeap

/-!
# The trees that shared variants show

What is seen through a reference is a tree, whether the containers on the way have
been made or not. A tree stays the same as long as the representations it is read
from do, and making a container changes none.
-/

namespace TaskExplorer.HeapTrees
open Codec OrderedMap RefHeap VariantFormat VariantContainer
open VariantValue VariantTree VariantBuild VariantHeap

/-! ## Payloads -/

mutual
/-- The tree of a packet, in which a container that cannot be read to its end is a
    leaf. -/
inductive Looks : Packed → Tree → Prop where
  | plain {packed : Packed} (plain : kindOf packed.type = none) : Looks packed (.leaf packed.type packed.payload)
  | refused {packed : Packed} {kind : Kind} {raised : CException} (known : kindOf packed.type = some kind)
      (failed : load kind packed.payload = .error raised) : Looks packed (.leaf packed.type packed.payload)
  | parsed {packed : Packed} {kind : Kind} {entries : List (Key × Packed)} {trees : List (Key × Tree)}
      (known : kindOf packed.type = some kind) (loaded : load kind packed.payload = .ok entries) (children : LooksAll entries trees) :
      Looks packed (.node kind trees)

inductive LooksAll : List (Key × Packed) → List (Key × Tree) → Prop where
  | nil : LooksAll [] []
  | cons (key : Key) {packed : Packed} {tree : Tree} {rest : List (Key × Packed)} {trees : List (Key × Tree)}
      (head : Looks packed tree) (tail : LooksAll rest trees) : LooksAll ((key, packed) :: rest) ((key, tree) :: trees)
end

theorem looksAll_exists {entries : List (Key × Packed)} (each : ∀ pair ∈ entries, ∃ tree, Looks pair.2 tree) :
    ∃ trees, LooksAll entries trees := by
  induction entries with
  | nil => exact ⟨[], .nil⟩
  | cons pair rest ih =>
    obtain ⟨tree, head⟩ := each pair (by simp)
    obtain ⟨trees, tail⟩ := ih (fun other member => each other (List.mem_cons_of_mem _ member))
    exact ⟨(pair.1, tree) :: trees, .cons pair.1 head tail⟩

variable {trees : List (Key × Tree)} {tree : Tree} {roots used : List Address}

theorem LooksAll.keys {entries : List (Key × Packed)} (looks : LooksAll entries trees) :
    entries.map Prod.fst = trees.map Prod.fst := by
  induction entries generalizing trees with
  | nil =>
    cases looks
    rfl
  | cons head rest ih =>
    cases looks with
    | cons key first others => rw [List.map_cons, List.map_cons, ih others]

private theorem load_shorter {kind : Kind} {payload : Bytes} {entries : List (Key × Packed)} (loaded : load kind payload = .ok entries)
    {pair : Key × Packed} (member : pair ∈ entries) : pair.2.payload.length < payload.length := by
  obtain ⟨-, rfl⟩ := load_ok_iff.mp loaded
  obtain ⟨key, kept, -⟩ := mem_collect member
  exact raw_entries_shorter kind payload (key, pair.2) kept

theorem looks_exists (packed : Packed) : ∃ tree, Looks packed tree := by
  induction size : packed.payload.length using Nat.strong_induction_on generalizing packed with
  | _ size ih =>
    cases known : kindOf packed.type with
    | none => exact ⟨_, .plain known⟩
    | some kind =>
      cases loaded : load kind packed.payload with
      | error raised => exact ⟨_, .refused known loaded⟩
      | ok entries =>
        obtain ⟨trees, children⟩ := looksAll_exists (fun pair member =>
          ih pair.2.payload.length (by rw [← size]; exact load_shorter loaded member) pair.2 rfl)
        exact ⟨_, .parsed known loaded children⟩

mutual
theorem Looks.unique {packed : Packed} {tree other : Tree} : Looks packed tree → Looks packed other → tree = other
  | .plain plain, second => by
    cases second with
    | plain => rfl
    | refused known => rfl
    | parsed known => rw [plain] at known; cases known
  | .refused known failed, second => by
    cases second with
    | plain plain => rfl
    | refused => rfl
    | parsed otherKnown loaded =>
      cases known.symm.trans otherKnown
      cases failed.symm.trans loaded
  | .parsed known loaded children, second => by
    cases second with
    | plain plain => rw [plain] at known; cases known
    | refused otherKnown failed =>
      cases known.symm.trans otherKnown
      cases failed.symm.trans loaded
    | parsed otherKnown otherLoaded others =>
      cases known.symm.trans otherKnown
      cases loaded.symm.trans otherLoaded
      rw [children.unique others]

theorem LooksAll.unique {entries : List (Key × Packed)} {trees others : List (Key × Tree)} :
    LooksAll entries trees → LooksAll entries others → trees = others
  | .nil, second => by
    cases second
    rfl
  | .cons key head tail, second => by
    cases second with
    | cons _ otherHead otherTail => rw [head.unique otherHead, tail.unique otherTail]
end

/-! ## References -/

mutual
inductive Shows (store : Store) : Address → Tree → Prop where
  | raw {address : Address} {cell : Cell Node} {tree : Tree} (found : look store address = some cell)
      (unopened : cell.content.container = none) (looks : Looks cell.content.packed tree) : Shows store address tree
  | opened {address : Address} {cell : Cell Node} {kind : Kind} {entries : List (Key × Address)} {trees : List (Key × Tree)}
      (found : look store address = some cell) (known : kindOf cell.content.type = some kind)
      (opened : cell.content.container = some entries) (children : ShowsAll store entries trees) :
      Shows store address (.node kind trees)

inductive ShowsAll (store : Store) : List (Key × Address) → List (Key × Tree) → Prop where
  | nil : ShowsAll store [] []
  | cons (key : Key) {address : Address} {tree : Tree} {rest : List (Key × Address)} {trees : List (Key × Tree)}
      (head : Shows store address tree) (tail : ShowsAll store rest trees) :
      ShowsAll store ((key, address) :: rest) ((key, tree) :: trees)
end

theorem Shows.found {store : Store} {address : Address} (shows : Shows store address tree) :
    ∃ cell, look store address = some cell := by
  cases shows with
  | raw found => exact ⟨_, found⟩
  | opened found => exact ⟨_, found⟩

mutual
theorem Shows.unique {store : Store} {address : Address} {tree other : Tree} :
    Shows store address tree → Shows store address other → tree = other
  | .raw found unopened looks, second => by
    cases second with
    | raw otherFound otherUnopened otherLooks =>
      cases found.symm.trans otherFound
      exact looks.unique otherLooks
    | opened otherFound known opened =>
      cases found.symm.trans otherFound
      cases unopened.symm.trans opened
  | .opened found known opened children, second => by
    cases second with
    | raw otherFound unopened =>
      cases found.symm.trans otherFound
      cases unopened.symm.trans opened
    | opened otherFound otherKnown otherOpened others =>
      cases found.symm.trans otherFound
      cases known.symm.trans otherKnown
      cases opened.symm.trans otherOpened
      rw [children.unique others]

theorem ShowsAll.unique {store : Store} {entries : List (Key × Address)} {trees others : List (Key × Tree)} :
    ShowsAll store entries trees → ShowsAll store entries others → trees = others
  | .nil, second => by
    cases second
    rfl
  | .cons key head tail, second => by
    cases second with
    | cons _ otherHead otherTail => rw [head.unique otherHead, tail.unique otherTail]
end

theorem ShowsAll.each {store : Store} {entries : List (Key × Address)} (shows : ShowsAll store entries trees)
    {pair : Key × Address} (member : pair ∈ entries) : ∃ tree, (pair.1, tree) ∈ trees ∧ Shows store pair.2 tree := by
  induction entries generalizing trees with
  | nil => cases member
  | cons head rest ih =>
    cases shows with
    | cons key first others =>
      rcases List.mem_cons.mp member with rfl | later
      · exact ⟨_, List.mem_cons_self, first⟩
      · obtain ⟨tree, among, seen⟩ := ih others later
        exact ⟨tree, List.mem_cons_of_mem _ among, seen⟩

theorem ShowsAll.keys {store : Store} {entries : List (Key × Address)} (shows : ShowsAll store entries trees) :
    entries.map Prod.fst = trees.map Prod.fst := by
  induction entries generalizing trees with
  | nil =>
    cases shows
    rfl
  | cons head rest ih =>
    cases shows with
    | cons key first others => rw [List.map_cons, List.map_cons, ih others]

theorem showsAll_exists {store : Store} {entries : List (Key × Address)} (each : ∀ pair ∈ entries, ∃ tree, Shows store pair.2 tree) :
    ∃ trees, ShowsAll store entries trees := by
  induction entries with
  | nil => exact ⟨[], .nil⟩
  | cons pair rest ih =>
    obtain ⟨tree, head⟩ := each pair (by simp)
    obtain ⟨trees, tail⟩ := ih (fun other member => each other (List.mem_cons_of_mem _ member))
    exact ⟨(pair.1, tree) :: trees, .cons pair.1 head tail⟩

/-- The tree is read from representations that hold the same in the other store. -/
structure Same (store other : Store) (within : Address → Prop) : Prop where
  holds : ∀ {address cell}, within address → look store address = some cell →
    ∃ later, look other address = some later ∧ later.content = cell.content
  below : ∀ {address cell}, within address → look store address = some cell → ∀ kid ∈ cell.content.kids, within kid

mutual
theorem Shows.same {store other : Store} {within : Address → Prop} (same : Same store other within) {address : Address} {tree : Tree} :
    Shows store address tree → within address → Shows other address tree
  | .raw found unopened looks, inside => by
    obtain ⟨later, there, equal⟩ := same.holds inside found
    rw [← equal] at unopened looks
    exact .raw there unopened looks
  | @Shows.opened _ _ cell kind entries trees found known opened children, inside => by
    obtain ⟨later, there, equal⟩ := same.holds inside found
    have kids : ∀ pair ∈ entries, within pair.2 := by
      intro pair member
      refine same.below inside found pair.2 ?_
      rw [Node.kids, opened]
      exact List.mem_map.mpr ⟨pair, member, rfl⟩
    rw [← equal] at known opened
    exact .opened there known opened (children.same same kids)

theorem ShowsAll.same {store other : Store} {within : Address → Prop} (same : Same store other within)
    {entries : List (Key × Address)} {trees : List (Key × Tree)} :
    ShowsAll store entries trees → (∀ pair ∈ entries, within pair.2) → ShowsAll other entries trees
  | .nil, _ => .nil
  | .cons key head tail, inside =>
    .cons key (head.same same (inside _ List.mem_cons_self))
      (tail.same same (fun pair member => inside pair (List.mem_cons_of_mem _ member)))
end

theorem same_append (store more : Store) : Same store (store ++ more) (fun _ => True) where
  holds _ found := ⟨_, look_append_left found, rfl⟩
  below _ _ _ _ := trivial

theorem same_counter {store : Store} {address : Address} {cell : Cell Node} (found : look store address = some cell) (count : Nat) :
    Same store (store.set address (some { cell with count := count })) (fun _ => True) where
  holds {other seen} _ there := by
    rw [look_set (look_lt found)]
    by_cases same : other = address
    · subst same
      cases found.symm.trans there
      exact ⟨_, if_pos rfl, rfl⟩
    · exact ⟨seen, by rw [if_neg same]; exact there, rfl⟩
  below _ _ _ _ := trivial

theorem same_unreferred {store : Store} {address : Address} (alone : address ∉ edges Node.kids store) (inside : address < store.length)
    (slot : Option (Cell Node)) : Same store (store.set address slot) (fun other => other ≠ address) where
  holds {other cell} differs there := ⟨cell, by rw [look_set inside, if_neg differs]; exact there, rfl⟩
  below _ there kid member same := alone (same ▸ mem_edges there member)

theorem same_thinned {store other : Store} (thinned : Thinned store other) (counted : Counted Node.kids other roots) :
    Same store other (fun address => ∃ cell, look other address = some cell) where
  holds {address cell} inside there := by
    obtain ⟨later, found⟩ := inside
    rcases thinned address with gone | ⟨before, count, seen, kept⟩
    · rw [gone] at found
      cases found
    · cases seen.symm.trans there
      exact ⟨_, kept, rfl⟩
  below {address cell} inside there kid member := by
    obtain ⟨later, found⟩ := inside
    rcases thinned address with gone | ⟨before, count, seen, kept⟩
    · rw [gone] at found
      cases found
    · cases seen.symm.trans there
      exact counted_kid counted kept member

/-! ## References that are counted and show something -/

structure Good (store : Store) (roots : List Address) : Prop where
  counted : Counted Node.kids store roots
  shows : ∀ root ∈ roots, ∃ tree, Shows store root tree

/-- The roots show what they did, and one that is referred to only once is not
    touched unless it is used. -/
structure Spared (store later : Store) (roots used : List Address) : Prop where
  shows : ∀ root ∈ roots, ∀ tree, Shows store root tree → Shows later root tree
  alone : ∀ root ∈ roots, counter store root = 1 → root ∉ used → look later root = look store root

/-- The roots that are not used hold what they held, too. -/
structure Kept (store later : Store) (roots used : List Address) : Prop extends Spared store later roots used where
  holds : ∀ root ∈ roots, root ∉ used → nodeAt later root = nodeAt store root

theorem Spared.trans {first second third : Store} (left : Spared first second roots used)
    (right : Spared second third roots used) : Spared first third roots used where
  shows root member tree shows := right.shows root member tree (left.shows root member tree shows)
  alone root member one unused := by
    have same := left.alone root member one unused
    have still : counter second root = 1 := by
      rw [counter, same]
      exact one
    rw [right.alone root member still unused, same]

variable {later : Store} {root : Address}

theorem Spared.fewer {store : Store} {some : List Address} (spared : Spared store later roots used)
    (subset : some ⊆ roots) : Spared store later some used where
  shows root member := spared.shows root (subset member)
  alone root member := spared.alone root (subset member)

theorem Spared.more {store : Store} {also : List Address} (spared : Spared store later roots used)
    (subset : used ⊆ also) : Spared store later roots also where
  shows := spared.shows
  alone root member one unused := spared.alone root member one (fun there => unused (subset there))

theorem Kept.refl (store : Store) (roots used : List Address) : Kept store store roots used where
  shows _ _ _ shows := shows
  holds _ _ _ := rfl
  alone _ _ _ _ := rfl

theorem Kept.trans {first second third : Store} (left : Kept first second roots used)
    (right : Kept second third roots used) : Kept first third roots used where
  toSpared := left.toSpared.trans right.toSpared
  holds root member unused := (right.holds root member unused).trans (left.holds root member unused)

theorem Kept.fewer {store : Store} {some : List Address} (kept : Kept store later roots used) (subset : some ⊆ roots) :
    Kept store later some used where
  toSpared := kept.toSpared.fewer subset
  holds root member := kept.holds root (subset member)

theorem Kept.more {store : Store} {also : List Address} (kept : Kept store later roots used) (subset : used ⊆ also) :
    Kept store later roots also where
  toSpared := kept.toSpared.more subset
  holds root member unused := kept.holds root member (fun there => unused (subset there))

theorem Good.perm {store : Store} {others : List Address} (good : Good store roots) (same : roots.Perm others) :
    Good store others where
  counted := counted_perm good.counted same
  shows root member := good.shows root (same.symm.subset member)

theorem Good.there {store : Store} (good : Good store roots) (member : root ∈ roots) :
    ∃ cell, look store root = some cell := counted_root good.counted member

theorem Good.kid {store : Store} (good : Good store roots) (member : root ∈ roots) {cell : Cell Node}
    (found : look store root = some cell) {entries : List (Key × Address)}
    (opened : cell.content.container = some entries) {pair : Key × Address} (child : pair ∈ entries) :
    ∃ tree, Shows store pair.2 tree := by
  obtain ⟨tree, shows⟩ := good.shows root member
  cases shows with
  | raw there unopened =>
    cases found.symm.trans there
    cases unopened.symm.trans opened
  | opened there known also children =>
    cases found.symm.trans there
    cases opened.symm.trans also
    obtain ⟨tree, -, seen⟩ := children.each child
    exact ⟨tree, seen⟩

theorem Good.kindOf_some {store : Store} (good : Good store roots) (member : root ∈ roots) {cell : Cell Node}
    (found : look store root = some cell) {entries : List (Key × Address)}
    (opened : cell.content.container = some entries) : ∃ kind, kindOf cell.content.type = some kind := by
  obtain ⟨tree, shows⟩ := good.shows root member
  cases shows with
  | raw there unopened =>
    cases found.symm.trans there
    cases unopened.symm.trans opened
  | opened there known also children =>
    cases found.symm.trans there
    exact ⟨_, known⟩

/-! ### What counting once means -/

theorem Good.single {store : Store} {address : Address} (good : Good store (address :: roots))
    (one : counter store address = 1) : address ∉ roots ∧ address ∉ edges Node.kids store := by
  obtain ⟨cell, found⟩ := good.there List.mem_cons_self
  rw [counter_eq found] at one
  exact counted_unique good.counted found one

theorem Good.unreferred {store : Store} (good : Good store roots) (member : root ∈ roots) (one : counter store root = 1) :
    root ∉ edges Node.kids store := by
  intro child
  have bound := good.counted root
  have here := List.count_pos_iff.mpr member
  have there := List.count_pos_iff.mpr child
  omega

theorem Good.apart {store : Store} {address : Address} (good : Good store (address :: roots)) (member : root ∈ roots)
    (one : counter store root = 1) : root ≠ address ∧ root ∉ edges Node.kids store := by
  refine ⟨?_, good.unreferred (List.mem_cons_of_mem _ member) one⟩
  have twice := good.counted root
  have here := List.count_pos_iff.mpr member
  intro same
  subst same
  rw [List.count_cons_self] at twice
  omega

/-! ### Primitive changes -/

theorem Good.kept_append {store : Store} (good : Good store roots) (more : Store) :
    Kept store (store ++ more) roots [] := by
  have same (root : Address) (member : root ∈ roots) : look (store ++ more) root = look store root := by
    obtain ⟨cell, found⟩ := good.there member
    rw [found]
    exact look_append_left found
  refine ⟨⟨fun root _ tree seen => seen.same (same_append store more) trivial, fun root member _ _ => same root member⟩, ?_⟩
  intro root member _
  rw [nodeAt, nodeAt, same root member]

theorem Good.alloc (node : Node) {store : Store} (good : Good store (node.kids ++ roots))
    (shows : ∃ tree, Shows (store ++ [some ⟨1, node⟩]) store.length tree) :
    Good (store ++ [some ⟨1, node⟩]) (store.length :: roots) ∧ Kept store (store ++ [some ⟨1, node⟩]) roots [] := by
  have kept := good.kept_append [some ⟨1, node⟩]
  refine ⟨⟨counted_alloc good.counted, ?_⟩, kept.fewer (List.subset_append_right _ _)⟩
  intro root member
  rcases List.mem_cons.mp member with rfl | other
  · exact shows
  · have among := List.mem_append_right node.kids other
    obtain ⟨tree, seen⟩ := good.shows root among
    exact ⟨tree, kept.shows root among tree seen⟩

theorem shows_raw (store : Store) (access : EAccess) (packed : Packed) :
    ∃ tree, Shows (store ++ [some ⟨1, .raw access packed⟩]) store.length tree := by
  obtain ⟨tree, looks⟩ := looks_exists packed
  exact ⟨tree, .raw (look_alloc store ⟨1, .raw access packed⟩) rfl looks⟩

theorem Good.alloc_raw {store : Store} (good : Good store roots) (access : EAccess) (packed : Packed) :
    Good (store ++ [some ⟨1, .raw access packed⟩]) (store.length :: roots) ∧
      Kept store (store ++ [some ⟨1, .raw access packed⟩]) roots [] :=
  Good.alloc (.raw access packed) good (shows_raw store access packed)

theorem Good.retain {store : Store} (good : Good store roots) {source : Address} {cell : Cell Node}
    (found : look store source = some cell) (seen : Shows store source tree) :
    ∃ later, retain store source = some later ∧ Good later (source :: roots) ∧ Kept store later roots [source] ∧
      ∀ other, nodeAt later other = nodeAt store other := by
  have contents (other : Address) :
      nodeAt (store.set source (some { cell with count := cell.count + 1 })) other = nodeAt store other := by
    rw [nodeAt, nodeAt, look_set (look_lt found)]
    by_cases same : other = source
    · rw [if_pos same, same, found]
      rfl
    · rw [if_neg same]
  have kept : ∀ root tree, Shows store root tree →
      Shows (store.set source (some { cell with count := cell.count + 1 })) root tree :=
    fun root tree seen => seen.same (same_counter found _) trivial
  refine ⟨_, by rw [VariantHeap.retain, found]; rfl, ⟨counted_retain good.counted found, ?_⟩,
    ⟨⟨fun root _ => kept root, ?_⟩, fun root _ _ => contents root⟩, contents⟩
  · intro root there
    rcases List.mem_cons.mp there with rfl | other
    · exact ⟨tree, kept root tree seen⟩
    · obtain ⟨tree, seen⟩ := good.shows root other
      exact ⟨tree, kept root tree seen⟩
  · intro root there one unused
    have differs : root ≠ source := by simpa using unused
    rw [look_set (look_lt found), if_neg differs]

theorem Good.drop {store : Store} {address : Address} (good : Good store (address :: roots)) :
    ∃ later, drop store address = some later ∧ Good later roots ∧ Kept store later roots [] := by
  obtain ⟨later, released, counted, thinned, others⟩ :=
    release_counted [address] roots good.counted (Nat.le_refl _)
  have kept : ∀ root ∈ roots, ∀ tree, Shows store root tree → Shows later root tree :=
    fun root member tree seen => seen.same (same_thinned thinned counted) (counted_root counted member)
  refine ⟨later, released, ⟨counted, ?_⟩, ⟨kept, ?_⟩, ?_⟩
  · intro root member
    obtain ⟨tree, seen⟩ := good.shows root (List.mem_cons_of_mem _ member)
    exact ⟨tree, kept root member tree seen⟩
  · intro root member one unused
    obtain ⟨differs, unreferred⟩ := good.apart member one
    exact others root (by simpa using differs) unreferred
  · intro root member _
    obtain ⟨cell, found⟩ := counted_root counted member
    rcases thinned root with gone | ⟨before, count, there, same⟩
    · rw [gone] at found
      cases found
    · rw [nodeAt, nodeAt, there, same]
      rfl

/-- New content for the only reference: it takes references over from the roots, and
    gives back those it no longer holds. -/
theorem Good.write {store : Store} {address : Address} {taken given : List Address}
    (good : Good store (taken ++ address :: roots)) {cell : Cell Node} (found : look store address = some cell)
    (one : cell.count = 1) (node : Node)
    (balance : ∀ other, node.kids.count other + given.count other ≤ cell.content.kids.count other + taken.count other)
    (known : ∀ entries, node.container = some entries → ∃ kind, kindOf node.type = some kind) :
    Good (store.set address (some { cell with content := node })) (given ++ address :: roots) ∧
      Kept store (store.set address (some { cell with content := node })) roots [] := by
  have front : Good store (address :: (taken ++ roots)) := good.perm List.perm_middle
  obtain ⟨notRoot, unreferred⟩ := front.single (by rw [counter_eq found]; exact one)
  have inside := look_lt found
  have same := same_unreferred unreferred inside (some { cell with content := node })
  have written : look (store.set address (some { cell with content := node })) address = some { cell with content := node } := by
    rw [look_set inside, if_pos rfl]
  -- what the node held or takes over is not the node itself
  have kid (other : Address) (held : other ∈ cell.content.kids ∨ other ∈ taken) :
      ∃ tree, Shows (store.set address (some { cell with content := node })) other tree := by
    rcases held with child | root
    · have differs : other ≠ address := fun equal => unreferred (equal ▸ mem_edges found child)
      obtain ⟨pair, member, rfl⟩ := List.mem_map.mp child
      cases opened : cell.content.container with
      | none =>
        rw [opened] at member
        cases member
      | some entries =>
        rw [opened] at member
        obtain ⟨tree, seen⟩ := front.kid List.mem_cons_self found opened member
        exact ⟨tree, seen.same same differs⟩
    · have differs : other ≠ address := fun equal => notRoot (equal ▸ List.mem_append_left _ root)
      obtain ⟨tree, seen⟩ := front.shows other (List.mem_cons_of_mem _ (List.mem_append_left _ root))
      exact ⟨tree, seen.same same differs⟩
  have owned (other : Address) (held : other ∈ node.kids ∨ other ∈ given) : other ∈ cell.content.kids ∨ other ∈ taken := by
    have fair := balance other
    have some : 0 < node.kids.count other + given.count other := by
      rcases held with child | root
      · have := List.count_pos_iff.mpr child
        omega
      · have := List.count_pos_iff.mpr root
        omega
    by_contra neither
    simp only [not_or] at neither
    rw [List.count_eq_zero.mpr neither.1, List.count_eq_zero.mpr neither.2] at fair
    omega
  have others : ∀ root ∈ roots, ∀ tree, Shows store root tree →
      Shows (store.set address (some { cell with content := node })) root tree := by
    intro root member tree seen
    exact seen.same same (fun equal => notRoot (equal ▸ List.mem_append_right _ member))
  have self : ∃ tree, Shows (store.set address (some { cell with content := node })) address tree := by
    cases opened : node.container with
    | none =>
      obtain ⟨tree, looks⟩ := looks_exists node.packed
      exact ⟨tree, .raw written opened looks⟩
    | some entries =>
      obtain ⟨kind, typed⟩ := known entries opened
      have each : ∀ pair ∈ entries, ∃ tree, Shows (store.set address (some { cell with content := node })) pair.2 tree := by
        intro pair member
        refine kid pair.2 (owned pair.2 (.inl ?_))
        rw [Node.kids, opened]
        exact List.mem_map.mpr ⟨pair, member, rfl⟩
      obtain ⟨trees, children⟩ := showsAll_exists each
      exact ⟨_, .opened written typed opened children⟩
  have elsewhere (root : Address) (member : root ∈ roots) :
      look (store.set address (some { cell with content := node })) root = look store root := by
    have differs : root ≠ address := fun equal => notRoot (equal ▸ List.mem_append_right _ member)
    rw [look_set inside, if_neg differs]
  refine ⟨⟨counted_write good.counted found balance, ?_⟩, ⟨others, fun root member _ _ => elsewhere root member⟩, ?_⟩
  · intro root member
    rcases List.mem_append.mp member with gone | stays
    · exact kid root (owned root (.inr gone))
    · rcases List.mem_cons.mp stays with rfl | other
      · exact self
      · obtain ⟨tree, seen⟩ := front.shows root (List.mem_cons_of_mem _ (List.mem_append_right _ other))
        exact ⟨tree, others root other tree seen⟩
  · intro root member _
    rw [nodeAt, nodeAt, elsewhere root member]

/-! ### Making a container -/

/-- The addresses of the entries that are made from a payload. -/
def placed (store : Store) (pairs : List (Key × Packed)) : List Address := (place_all store.length pairs).map Prod.snd

theorem Good.load {store : Store} (good : Good store roots) (pairs : List (Key × Packed)) :
    Good (store ++ loaded_cells pairs) (placed store pairs ++ roots) ∧ Kept store (store ++ loaded_cells pairs) roots [] := by
  induction pairs generalizing store roots with
  | nil =>
    rw [show loaded_cells [] = [] from rfl, List.append_nil]
    exact ⟨good, Kept.refl store roots []⟩
  | cons pair rest ih =>
    obtain ⟨first, kept⟩ := good.alloc_raw .readOnly pair.2
    obtain ⟨later, others⟩ := ih first
    have cells : store ++ loaded_cells (pair :: rest) = (store ++ [some ⟨1, Node.raw .readOnly pair.2⟩]) ++ loaded_cells rest := by
      simp [loaded_cells]
    have addresses : placed store (pair :: rest) = store.length :: placed (store ++ [some ⟨1, Node.raw .readOnly pair.2⟩]) rest := by
      simp [placed, place_all]
    rw [cells, addresses]
    refine ⟨later.perm ?_, kept.trans (others.fewer (List.subset_cons_self _ _))⟩
    exact List.perm_middle

theorem look_loaded {store : Store} {pairs : List (Key × Packed)} {index : Nat} {pair : Key × Packed} (there : pairs[index]? = some pair) :
    look (store ++ loaded_cells pairs) (store.length + index) = some ⟨1, .raw .readOnly pair.2⟩ := by
  rw [look, List.getElem?_append_right (Nat.le_add_right _ _), Nat.add_sub_cancel_left, loaded_cells, List.getElem?_map, there]
  rfl

theorem shows_placed {store : Store} {pairs : List (Key × Packed)} (looks : LooksAll pairs trees) {first : Address}
    (there : ∀ index pair, pairs[index]? = some pair → look store (first + index) = some ⟨1, .raw .readOnly pair.2⟩) :
    ShowsAll store (place_all first pairs) trees := by
  induction pairs generalizing trees first with
  | nil =>
    cases looks
    exact .nil
  | cons pair rest ih =>
    cases looks with
    | cons key head tail =>
      refine .cons key (.raw (there 0 _ rfl) rfl head) (ih tail ?_)
      intro index pair found
      rw [Nat.add_assoc, Nat.add_comm 1 index]
      exact there (index + 1) pair found

section Opening
variable {store : Store} {address : Address} {cell : Cell Node} {kind : Kind} {pairs : List (Key × Packed)}

/-- The store after the entries of a payload were made into its container. -/
def filled (store : Store) (address : Address) (cell : Cell Node) (pairs : List (Key × Packed)) : Store :=
  (store ++ loaded_cells pairs).set address
    (some { cell with content := { cell.content with container := some (place_all store.length pairs) } })

theorem look_filled (found : look store address = some cell) (other : Address) (differs : other ≠ address) :
    look (filled store address cell pairs) other = look (store ++ loaded_cells pairs) other := by
  have inside : address < (store ++ loaded_cells pairs).length := look_lt (look_append_left found)
  rw [filled, look_set inside, if_neg differs]

theorem look_filled_self (found : look store address = some cell) :
    look (filled store address cell pairs) address =
      some { cell with content := { cell.content with container := some (place_all store.length pairs) } } := by
  have inside : address < (store ++ loaded_cells pairs).length := look_lt (look_append_left found)
  rw [filled, look_set inside, if_pos rfl]

mutual
theorem Shows.filled (found : look store address = some cell) (unopened : cell.content.container = none)
    (known : kindOf cell.content.type = some kind) (loaded : load kind cell.content.packed.payload = .ok pairs) {root : Address}
    {tree : Tree} : Shows store root tree → Shows (filled store address cell pairs) root tree
  | .raw there bare looks => by
    by_cases here : root = address
    · subst here
      cases found.symm.trans there
      cases looks with
      | plain plain => cases plain.symm.trans known
      | refused also failed =>
        cases also.symm.trans known
        cases failed.symm.trans loaded
      | parsed also alsoLoaded children =>
        cases also.symm.trans known
        cases alsoLoaded.symm.trans loaded
        refine .opened (look_filled_self found) known rfl (shows_placed children ?_)
        intro index pair at_index
        have differs : store.length + index ≠ root :=
          Nat.ne_of_gt (Nat.lt_of_lt_of_le (look_lt found) (Nat.le_add_right _ _))
        rw [look_filled found _ differs]
        exact look_loaded at_index
    · refine .raw ?_ bare looks
      rw [look_filled found _ here]
      exact look_append_left there
  | .opened there also opened children => by
    have differs : root ≠ address := by
      rintro rfl
      cases found.symm.trans there
      cases unopened.symm.trans opened
    refine .opened ?_ also opened (ShowsAll.filled found unopened known loaded children)
    rw [look_filled found _ differs]
    exact look_append_left there

theorem ShowsAll.filled (found : look store address = some cell) (unopened : cell.content.container = none)
    (known : kindOf cell.content.type = some kind) (loaded : load kind cell.content.packed.payload = .ok pairs)
    {entries : List (Key × Address)} {trees : List (Key × Tree)} :
    ShowsAll store entries trees → ShowsAll (filled store address cell pairs) entries trees
  | .nil => .nil
  | .cons key head tail => .cons key (Shows.filled found unopened known loaded head) (ShowsAll.filled found unopened known loaded tail)
end

theorem counted_filled (found : look store address = some cell) (unopened : cell.content.container = none)
    (good : Good (store ++ loaded_cells pairs) (placed store pairs ++ roots)) :
    Counted Node.kids (filled store address cell pairs) roots := by
  have fair : ∀ other, (Node.kids { cell.content with container := some (place_all store.length pairs) }).count other +
      ([] : List Address).count other ≤ cell.content.kids.count other + (placed store pairs).count other := by
    intro other
    simp [Node.kids, unopened, placed]
  exact counted_write good.counted (look_append_left found) fair

end Opening

theorem open_container_opened {store : Store} {address : Address} {cell : Cell Node} {kind : Kind} {entries : List (Key × Address)}
    (found : look store address = some cell) (opened : cell.content.container = some entries) :
    open_container store address kind = some (store, .ok entries) := by
  simp only [open_container, nodeAt, found, Option.map_some, bind, Option.bind, opened]
  rfl

theorem open_container_raw {store : Store} {address : Address} {cell : Cell Node} {kind : Kind} {pairs : List (Key × Packed)}
    {stopped : Option CException} (found : look store address = some cell) (unopened : cell.content.container = none)
    (parsed : parse kind cell.content.packed.payload = (pairs, stopped)) :
    open_container store address kind =
      some (filled store address cell pairs, stopped.elim (.ok (place_all store.length pairs)) .error) := by
  have there : look (store ++ loaded_cells pairs) address = some cell := look_append_left found
  simp only [open_container, nodeAt, found, Option.map_some, bind, Option.bind, unopened, parsed, write, there]
  rfl

theorem Good.open_alone {store : Store} {address : Address} (good : Good store (address :: roots)) {cell : Cell Node}
    (found : look store address = some cell) (one : cell.count = 1) {kind : Kind}
    (known : kindOf cell.content.type = some kind) :
    ∃ later result entries, open_container store address kind = some (later, result) ∧ Good later (address :: roots) ∧
      Kept store later roots [] ∧
      look later address = some { cell with content := { cell.content with container := some entries } } ∧
      ∀ found, result = .ok found → found = entries := by
  cases opened : cell.content.container with
  | some entries =>
    refine ⟨store, .ok entries, entries, open_container_opened found opened, good, Kept.refl store roots [], ?_, ?_⟩
    · rw [found, ← opened]
    · rintro found ⟨⟩
      rfl
  | none =>
    cases parsed : parse kind cell.content.packed.payload with
    | mk pairs stopped =>
      obtain ⟨filling, kept⟩ := good.load pairs
      have fair : ∀ other, (Node.kids { cell.content with container := some (place_all store.length pairs) }).count other +
          ([] : List Address).count other ≤ cell.content.kids.count other + (placed store pairs).count other := by
        intro other
        simp [Node.kids, opened, placed]
      obtain ⟨later, written⟩ := filling.write (look_append_left found) one _ fair (fun _ _ => ⟨kind, known⟩)
      refine ⟨_, _, _, open_container_raw found opened parsed, later, ?_, look_filled_self found, ?_⟩
      · exact (kept.fewer (List.subset_cons_self _ _)).trans written
      · intro entries right
        cases stopped with
        | none => exact (Except.ok.inj right).symm
        | some raised => cases right

theorem keys_place_all (first : Address) (pairs : List (Key × Packed)) :
    (place_all first pairs).map Prod.fst = pairs.map Prod.fst := by
  induction pairs generalizing first with
  | nil => rfl
  | cons pair rest ih => simp only [place_all, List.map_cons, ih]

theorem load_of_parse {kind : Kind} {payload : Bytes} {pairs : List (Key × Packed)} {stopped : Option CException}
    (parsed : parse kind payload = (pairs, stopped)) : VariantValue.load kind payload = stopped.elim (.ok pairs) .error := by
  rw [VariantValue.load, parsed]
  cases stopped <;> rfl

theorem Shows.entries {store : Store} {address : Address} (shows : Shows store address tree) {cell : Cell Node}
    (found : look store address = some cell) {kind : Kind} (known : kindOf cell.content.type = some kind)
    {entries : List (Key × Address)} (opened : open_container store address kind = some (later, .ok entries)) :
    ∃ trees, tree = .node kind trees ∧ entries.map Prod.fst = trees.map Prod.fst := by
  cases shows with
  | raw there unopened looks =>
    cases found.symm.trans there
    cases parsed : parse kind cell.content.packed.payload with
    | mk pairs stopped =>
      rw [open_container_raw found unopened parsed] at opened
      cases looks with
      | plain plain => cases plain.symm.trans known
      | refused also failed =>
        cases also.symm.trans known
        rw [load_of_parse parsed] at failed
        cases stopped with
        | none => cases failed
        | some raised => cases opened
      | parsed also loaded children =>
        cases also.symm.trans known
        rw [load_of_parse parsed] at loaded
        cases stopped with
        | some raised => cases loaded
        | none =>
          cases loaded
          cases opened
          exact ⟨_, rfl, (keys_place_all store.length pairs).trans children.keys⟩
  | opened there also held children =>
    cases found.symm.trans there
    cases also.symm.trans known
    rw [open_container_opened found held] at opened
    cases opened
    exact ⟨_, rfl, children.keys⟩

theorem Good.open_whole {store : Store} (good : Good store roots) {address : Address} {cell : Cell Node}
    (found : look store address = some cell) {kind : Kind} (known : kindOf cell.content.type = some kind)
    (whole : cell.content.container = none → (parse kind cell.content.packed.payload).2 = none) :
    ∃ later entries, open_container store address kind = some (later, .ok entries) ∧ Good later roots ∧
      Kept store later roots [address] ∧
      look later address = some { cell with content := { cell.content with container := some entries } } ∧
      ∀ other seen, other ≠ address → look store other = some seen → look later other = some seen := by
  cases opened : cell.content.container with
  | some entries =>
    refine ⟨store, entries, open_container_opened found opened, good, Kept.refl store roots _, ?_, fun _ _ _ there => there⟩
    rw [found, ← opened]
  | none =>
    cases parsed : parse kind cell.content.packed.payload with
    | mk pairs stopped =>
      have ended : stopped = none := by
        have all := whole opened
        rw [parsed] at all
        exact all
      subst ended
      have loaded : VariantValue.load kind cell.content.packed.payload = .ok pairs := by rw [VariantValue.load, parsed]
      have kept (root : Address) (tree : Tree) : Shows store root tree → Shows (filled store address cell pairs) root tree :=
        Shows.filled found opened known loaded
      have elsewhere (root : Address) (member : root ∈ roots) (unused : root ∉ [address]) :
          look (filled store address cell pairs) root = look store root := by
        have differs : root ≠ address := by simpa using unused
        obtain ⟨there, atRoot⟩ := good.there member
        rw [look_filled found _ differs, atRoot]
        exact look_append_left atRoot
      refine ⟨_, _, open_container_raw found opened parsed, ⟨counted_filled found opened (good.load pairs).1, ?_⟩,
        ⟨⟨fun root _ => kept root, fun root member _ unused => elsewhere root member unused⟩, ?_⟩, look_filled_self found, ?_⟩
      · intro root member
        obtain ⟨tree, seen⟩ := good.shows root member
        exact ⟨tree, kept root tree seen⟩
      · intro root member unused
        rw [nodeAt, nodeAt, elsewhere root member unused]
      · intro other seen differs there
        rw [look_filled found _ differs]
        exact look_append_left there

/-! ## Levels -/

/-- No more than so many levels of containers in memory. -/
inductive Levels (store : Store) : Nat → Address → Prop where
  | node {fuel : Nat} {address : Address} {cell : Cell Node} (found : look store address = some cell)
      (below : ∀ kid ∈ cell.content.kids, Levels store fuel kid) : Levels store (fuel + 1) address

private theorem nodup_length_le {addresses : List Address} {size : Nat} (nodup : addresses.Nodup)
    (inside : ∀ address ∈ addresses, address < size) : addresses.length ≤ size := by
  have subset : addresses ⊆ List.range size := fun address member => List.mem_range.mpr (inside address member)
  simpa using (List.subperm_of_subset nodup subset).length_le

private theorem size_child {kind : Kind} {key : Key} (member : (key, tree) ∈ trees) :
    sizeOf tree < sizeOf (VariantTree.Tree.node kind trees) := by
  have smaller := List.sizeOf_lt_of_mem member
  simp only [Prod.mk.sizeOf_spec] at smaller
  simp only [VariantTree.Tree.node.sizeOf_spec]
  omega

private theorem room_below {store : Store} {address : Address} {above : List Address} (shows : Shows store address tree)
    (nodup : above.Nodup) (larger : ∀ other ∈ above, ∃ tall, Shows store other tall ∧ sizeOf tree < sizeOf tall) :
    (address :: above).Nodup ∧ (address :: above).length ≤ store.length := by
  have fresh : address ∉ above := by
    intro member
    obtain ⟨other, seen, more⟩ := larger address member
    rw [shows.unique seen] at more
    exact Nat.lt_irrefl _ more
  have distinct := List.nodup_cons.mpr ⟨fresh, nodup⟩
  refine ⟨distinct, nodup_length_le distinct ?_⟩
  intro other member
  rcases List.mem_cons.mp member with rfl | there
  · obtain ⟨cell, found⟩ := shows.found
    exact look_lt found
  · obtain ⟨tall, seen, -⟩ := larger other there
    obtain ⟨cell, found⟩ := seen.found
    exact look_lt found

theorem levels_below {store : Store} (tree : Tree) : ∀ {address : Address} {above : List Address}, Shows store address tree →
    above.Nodup → (∀ other ∈ above, ∃ tall, Shows store other tall ∧ sizeOf tree < sizeOf tall) →
    Levels store (store.length - above.length) address := by
  induction tree using VariantTree.Tree.induct with
  | leaf type payload =>
    intro address above shows nodup larger
    obtain ⟨-, bound⟩ := room_below shows nodup larger
    obtain ⟨fuel, one⟩ : ∃ fuel, store.length - above.length = fuel + 1 := by
      refine ⟨store.length - above.length - 1, ?_⟩
      simp only [List.length_cons] at bound
      omega
    rw [one]
    cases shows with
    | raw found unopened looks =>
      refine .node found ?_
      intro kid member
      rw [Node.kids, unopened] at member
      cases member
  | node kind trees ih =>
    intro address above shows nodup larger
    have whole := shows
    obtain ⟨distinct, bound⟩ := room_below shows nodup larger
    have one : store.length - above.length = (store.length - (address :: above).length) + 1 := by
      simp only [List.length_cons] at bound ⊢
      omega
    rw [one]
    cases shows with
    | raw found unopened looks =>
      refine .node found ?_
      intro kid member
      rw [Node.kids, unopened] at member
      cases member
    | opened found known opened children =>
      refine .node found ?_
      intro kid member
      rw [Node.kids, opened] at member
      obtain ⟨pair, among, rfl⟩ := List.mem_map.mp member
      obtain ⟨child, there, seen⟩ := children.each among
      refine ih _ there seen distinct ?_
      intro other member
      rcases List.mem_cons.mp member with rfl | above
      · exact ⟨_, whole, size_child there⟩
      · obtain ⟨tall, shows, more⟩ := larger other above
        exact ⟨tall, shows, Nat.lt_trans (size_child there) more⟩

theorem Shows.levels {store : Store} {address : Address} (shows : Shows store address tree) :
    Levels store store.length address := by
  have all := levels_below tree shows List.nodup_nil (by simp)
  simpa using all

/-! ## Copies -/

/-- A copy shows the tree of what was copied, behind everything there was. -/
structure Copied (clone : Store → Address → Option (Store × Address)) (first : Store) (address : Address) (tree : Tree) : Prop where
  copies : ∀ {store more : Store} {roots : List Address}, store = first ++ more → Good store roots →
    ∃ added other, clone store address = some (store ++ added, other) ∧ Good (store ++ added) (other :: roots) ∧
      Shows (store ++ added) other tree ∧ ∃ node, look (store ++ added) other = some ⟨1, node⟩ ∧ node.access = .readWrite

theorem cloneAll_good {clone : Store → Address → Option (Store × Address)} {first : Store}
    {entries : List (Key × Address)}
    (each : ∀ pair ∈ entries, ∀ tree, Shows first pair.2 tree → Copied clone first pair.2 tree)
    (shows : ShowsAll first entries trees) {store more : Store} (extends_ : store = first ++ more)
    (good : Good store roots) :
    ∃ added copies, cloneAll clone store entries = some (store ++ added, copies) ∧
      Good (store ++ added) (copies.map Prod.snd ++ roots) ∧ ShowsAll (store ++ added) copies trees := by
  induction entries generalizing trees store more roots with
  | nil =>
    cases shows
    refine ⟨[], [], ?_, ?_, .nil⟩
    · rw [List.append_nil]
      rfl
    · rw [List.append_nil]
      exact good
  | cons pair rest ih =>
    cases shows with
    | cons key head tail =>
      rename_i child tree others
      obtain ⟨added, other, cloned, oneMore, seen, -⟩ := (each (key, child) List.mem_cons_self tree head).copies extends_ good
      have longer : store ++ added = first ++ (more ++ added) := by rw [extends_, List.append_assoc]
      obtain ⟨addedRest, copies, clonedRest, all, seenRest⟩ := ih (fun pair member => each pair (List.mem_cons_of_mem _ member))
        tail longer oneMore
      refine ⟨added ++ addedRest, (key, other) :: copies, ?_, ?_, ?_⟩
      · simp only [cloneAll, cloned, bind, Option.bind, clonedRest, ← List.append_assoc]
        rfl
      · rw [← List.append_assoc]
        exact all.perm List.perm_middle
      · rw [← List.append_assoc]
        exact .cons key (seen.same (same_append _ _) trivial) seenRest

/-- `Clone`, with as many levels as there are. -/
theorem cloneWith_good {first : Store} (fuel : Nat) : ∀ {address : Address} {tree : Tree}, Levels first fuel address →
    Shows first address tree → Copied (cloneWith fuel) first address tree := by
  induction fuel with
  | zero =>
    intro address tree levels
    cases levels
  | succ fuel ih =>
    intro address tree levels shows
    refine ⟨?_⟩
    intro store more roots extends_ good
    cases levels with
    | node found below =>
      rename_i cell
      have there : look store address = some cell := by
        rw [extends_]
        exact look_append_left found
      cases shows with
      | raw also unopened looks =>
        cases found.symm.trans also
        obtain ⟨later, -⟩ := good.alloc_raw .readWrite cell.content.packed
        have made := look_alloc store ⟨1, Node.raw .readWrite cell.content.packed⟩
        refine ⟨_, _, ?_, later, .raw made rfl looks, _, made, rfl⟩
        simp only [cloneWith, nodeAt, there, Option.map_some, bind, Option.bind, unopened]
        rfl
      | opened also known opened children =>
        cases found.symm.trans also
        rename_i kind entries trees
        have levels : ∀ pair ∈ entries, Levels first fuel pair.2 := by
          intro pair member
          refine below pair.2 ?_
          rw [Node.kids, opened]
          exact List.mem_map.mpr ⟨pair, member, rfl⟩
        obtain ⟨added, copies, cloned, all, seen⟩ := cloneAll_good
          (fun pair member tree shows => ih (levels pair member) shows) children extends_ good
        have made := look_alloc (store ++ added) ⟨1, ⟨.readWrite, ⟨cell.content.type, []⟩, some copies⟩⟩
        have shows : Shows (store ++ added ++ [some ⟨1, ⟨.readWrite, ⟨cell.content.type, []⟩, some copies⟩⟩])
            (store ++ added).length (.node kind trees) :=
          .opened made known rfl (seen.same (same_append _ _) (fun _ _ => trivial))
        obtain ⟨later, -⟩ := Good.alloc ⟨.readWrite, ⟨cell.content.type, []⟩, some copies⟩ all ⟨_, shows⟩
        rw [List.append_assoc] at later shows made
        refine ⟨_, _, ?_, later, shows, _, made, rfl⟩
        simp only [cloneWith, nodeAt, there, Option.map_some, bind, Option.bind, opened, cloned, ← List.append_assoc]
        rfl

theorem Good.clone {store : Store} (good : Good store roots) {address : Address} (shows : Shows store address tree) :
    ∃ later other node, clone store address = some (later, other) ∧ Good later (other :: roots) ∧ Kept store later roots [] ∧
      Shows later other tree ∧ look later other = some ⟨1, node⟩ ∧ node.access = .readWrite := by
  obtain ⟨added, other, cloned, later, seen, node, found, writable⟩ :=
    (cloneWith_good store.length shows.levels shows).copies (List.append_nil store).symm good
  exact ⟨store ++ added, other, node, cloned, later, good.kept_append added, seen, found, writable⟩

theorem Good.val {store : Store} {address : Address} (good : Good store (address :: roots)) :
    ∃ later other node, val store address = some (later, other) ∧ Good later (other :: roots) ∧ Kept store later roots [] ∧
      look later other = some ⟨1, node⟩ ∧ ∀ tree, Shows store address tree → Shows later other tree := by
  obtain ⟨⟨count, node⟩, found⟩ := good.there List.mem_cons_self
  by_cases shared : count > 1
  · obtain ⟨tree, shows⟩ := good.shows address List.mem_cons_self
    obtain ⟨cloned, other, copy, isClone, both, kept, same, made, -⟩ := good.clone shows
    obtain ⟨later, dropped, alone, keptBoth⟩ := (both.perm (List.Perm.swap address other roots)).drop
    refine ⟨later, other, copy, ?_, alone, ?_, ?_, ?_⟩
    · simp only [VariantHeap.val, found, bind, Option.bind, if_pos shared, isClone, dropped]
      rfl
    · exact (kept.fewer (List.subset_cons_self _ _)).trans (keptBoth.fewer (List.subset_cons_self _ _))
    · rw [keptBoth.alone other List.mem_cons_self (counter_eq made) (by simp)]
      exact made
    · intro seen another
      rw [another.unique shows]
      exact keptBoth.shows other List.mem_cons_self tree same
  · have bound := good.counted address
    rw [List.count_cons_self, counter_eq found] at bound
    have one : count = 1 := by
      simp only at bound
      omega
    subst one
    refine ⟨store, address, node, ?_, good, Kept.refl store roots [], found, fun _ shows => shows⟩
    simp only [VariantHeap.val, found, bind, Option.bind, if_neg shared]
    rfl

end TaskExplorer.HeapTrees
