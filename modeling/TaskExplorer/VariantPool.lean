import TaskExplorer.HeapEdits
import TaskExplorer.VariantRead

/-!
# Pools of variants

Variants are made from values and packets, copied, cloned, taken out of containers
with `Get`, and put into each other. A mutator goes to a variant of the pool or, through
the reference that `At` gave, to one inside it. Only that variant shows another tree
afterwards.

This fails when the reference is used after the variant was copied: `At` gave the
variant a representation of its own, which then has two owners. It fails too where a
payload that cannot be read to its end is opened, where an item of a list is removed,
and where a variant is assigned to itself, which frees the representation before it
takes a reference to it. Putting a variant into itself is not an operation of the pool.
-/

namespace TaskExplorer.VariantPool
open Codec OrderedMap Transition RefHeap VariantFormat
open VariantContainer VariantValue VariantTree VariantBuild
open VariantHeap HeapTrees HeapEdits
open VariantEdit (outOfBound)
open VariantRead (Place)

/-! ## Variants inside others -/

/-- The container that `At` looks into: a LIST is not made an INDEX. -/
def place_kind (place : Place) (node : Node) : Kind :=
  match place with
  | .name _ => .map
  | .index _ => if node.type = VAR_TYPE_LIST then .list else .index

def missing : Place → CException
  | .name _ => { line := "variant access violation; Map Member: %.*S is not present" }
  | .index _ => { line := "variant access violation; index Member: 0x%08X is not present" }

/-- Where the entry stands. -/
def position (kind : Kind) (place : Place) (entries : List (Key × Address)) : Option Nat :=
  match kind, place with
  | .list, .index index => if index.toNat < entries.length then some index.toNat else none
  | _, place => entries.findIdx? (fun pair => pair.1 = place.key)

/-- `At` of a variant that is not const, after `Val`: a key that is not there gets an
    EMPTY, unless the variant is frozen. -/
def child_slot (store : Store) (address : Address) (place : Place) : Option (Store × Except CException Nat) := do
  let node ← nodeAt store address
  let kind := place_kind place node
  if node.access ≠ .readWrite ∧ node.type ≠ kind.type then return (store, .error (missing place))
  let store ← init store address kind
  let (store, opened) ← open_container store address kind
  match opened with
  | .error raised => return (store, .error raised)
  | .ok entries =>
    match position kind place entries with
    | some index => return (store, .ok index)
    | none =>
      if node.access ≠ .readWrite then return (store, .error (missing place))
      if kind = .list then return (store, .error outOfBound)
      let (store, child) := alloc store .empty
      let entries := put place.key child entries
      let store ← refill store address entries
      let index ← entries.findIdx? (fun pair => pair.1 = place.key)
      return (store, .ok index)

/-- The entry is taken out of the container while the variant in it is changed. -/
def take_out (store : Store) (address : Address) (index : Nat) : Option (Store × Key × Address) := do
  let node ← nodeAt store address
  let entries ← node.container
  let (key, child) ← entries[index]?
  let store ← refill store address (entries.eraseIdx index)
  return (store, key, child)

def put_back (store : Store) (address : Address) (index : Nat) (key : Key) (child : Address) : Option Store := do
  let node ← nodeAt store address
  let entries ← node.container
  refill store address (entries.insertIdx index (key, child))

/-- A row of `At`s, and the places that the reference leads through. -/
def at_path : List Place → Store → Address → Option (Store × Address × Except CException (List Nat))
  | [], store, address => some (store, address, .ok [])
  | place :: rest, store, address => do
    let (store, address) ← val store address
    let (store, found) ← child_slot store address place
    match found with
    | .error raised => return (store, address, .error raised)
    | .ok index =>
      let (store, key, child) ← take_out store address index
      let (store, child, result) ← at_path rest store child
      let store ← put_back store address index key child
      return (store, address, result.map (fun slots => index :: slots))

/-- A mutator behind a reference: what is on the way is written where it stands. -/
def at_slots (change : Store → Address → Changed) : List Nat → Store → Address → Changed
  | [], store, address => change store address
  | index :: rest, store, address => do
    let (store, key, child) ← take_out store address index
    let (store, child, result) ← at_slots change rest store child
    let store ← put_back store address index key child
    return (store, address, result)

/-- `Get`, which is const: the child, or the default. -/
def get_child (store : Store) (address : Address) (place : Place) (default : Address) : Option (Store × Except CException Address) := do
  let node ← nodeAt store address
  let kind := place_kind place node
  if node.type ≠ kind.type then
    let (store, copied) ← copy store default
    return (store, .ok copied)
  let (store, opened) ← open_container store address kind
  match opened with
  | .error raised => return (store, .error raised)
  | .ok entries =>
    let child := ((position kind place entries).bind (fun index => entries[index]?)).elim default Prod.snd
    let (store, copied) ← copy store child
    return (store, .ok copied)

/-! ## The pool -/

/-- A reference belongs to the variant that `At` was called for. -/
structure Reference where
  target : Nat
  slots : List Nat

structure Pool where
  store : Store
  objects : List Address
  reference : Option Reference

def Pool.none : Pool := ⟨[], [], Option.none⟩

inductive Mutator where
  | assign (source : Nat)
  | insertName (name : Bytes) (source : Nat)
  | insertIndex (index : UInt32) (source : Nat)
  | append (source : Nat)
  | removeName (name : Bytes)
  | removeIndex (index : UInt32)
  | merge (source : Nat)
  | freeze
  | unfreeze
  | clear

inductive Event where
  /-- A variant made from a value or a packet. -/
  | create (access : EAccess) (packed : Packed)
  | copy (source : Nat)
  | clone (source : Nat)
  | get (source : Nat) (place : Place) (default : Nat)
  | edit (target : Nat) (mutator : Mutator)
  | atPath (target : Nat) (path : List Place)
  /-- A mutator through the reference. -/
  | through (mutator : Mutator)

def mutate (source : Nat → Option Address) : Mutator → Store → Address → Changed
  | .assign other, store, address => do VariantHeap.assign (← source other) store address
  | .insertName name other, store, address => do VariantHeap.insert .map (.name (c_str name)) (← source other) store address
  | .insertIndex index other, store, address => do VariantHeap.insert .index (.id index) (← source other) store address
  | .append other, store, address => do VariantHeap.insert .list .item (← source other) store address
  | .removeName name, store, address => VariantHeap.remove_name name store address
  | .removeIndex index, store, address => VariantHeap.remove_index index store address
  | .merge other, store, address => do VariantHeap.merge (← source other) store address
  | .freeze, store, address => VariantHeap.freeze store address
  | .unfreeze, store, address => VariantHeap.unfreeze store address
  | .clear, store, address => VariantHeap.clear store address

/-- Another variant of the pool. -/
def Pool.other (pool : Pool) (target source : Nat) : Option Address :=
  if source = target then Option.none else pool.objects[source]?

/-- What a mutator may put somewhere; a variant itself only in an assignment to it. -/
def Pool.source (pool : Pool) (target : Nat) : Mutator → Nat → Option Address
  | .assign _, source => pool.objects[source]?
  | _, source => pool.other target source

/-- A reference is not used any more when its variant was changed. -/
def Pool.changed (pool : Pool) (target : Nat) (store : Store) (address : Address) : Pool :=
  ⟨store, pool.objects.set target address, pool.reference.filter (fun reference => reference.target ≠ target)⟩

def step (pool : Pool) : Event → Option Pool
  | .create access packed =>
    let (store, other) := alloc pool.store (.raw access packed)
    some { pool with store, objects := pool.objects ++ [other] }
  | .copy source => do
    let (store, other) ← VariantHeap.copy pool.store (← pool.objects[source]?)
    return { pool with store, objects := pool.objects ++ [other] }
  | .clone source => do
    let (store, other) ← VariantHeap.clone pool.store (← pool.objects[source]?)
    return { pool with store, objects := pool.objects ++ [other] }
  | .get source place default => do
    let (store, result) ← get_child pool.store (← pool.objects[source]?) place (← pool.objects[default]?)
    match result with
    | .ok other => return { pool with store, objects := pool.objects ++ [other] }
    | .error _ => return { pool with store }
  | .edit target mutator => do
    let (store, address, _) ← mutate (pool.source target mutator) mutator pool.store (← pool.objects[target]?)
    return pool.changed target store address
  | .atPath target path => do
    let (store, address, result) ← at_path path pool.store (← pool.objects[target]?)
    return ⟨store, pool.objects.set target address, result.toOption.map (fun slots => ⟨target, slots⟩)⟩
  | .through mutator => do
    let reference ← pool.reference
    let change := mutate (pool.other reference.target) mutator
    let (store, address, _) ← at_slots change reference.slots pool.store (← pool.objects[reference.target]?)
    return { pool with store, objects := pool.objects.set reference.target address }

/-! ## Going down -/

variable {entries : List (Key × Address)} {store : Store} {address : Address} {roots : List Address}

theorem position_lt {kind : Kind} {place : Place} {index : Nat} (found : position kind place entries = some index) :
    index < entries.length := by
  have searched (there : entries.findIdx? (fun pair => pair.1 = place.key) = some index) : index < entries.length :=
    (List.findIdx?_eq_some_iff_findIdx_eq.mp there).1
  unfold position at found
  split at found
  · split_ifs at found with inside
    cases found
    exact inside
  · exact searched found

private theorem put_findIdx (key : Key) (value : Address) (entries : List (Key × Address)) :
    ∃ index, (put key value entries).findIdx? (fun pair => pair.1 = key) = some index := by
  have present : find key (put key value entries) = some value := by rw [find_put, if_pos rfl]
  have any : (put key value entries).any (fun pair => pair.1 = key) = true :=
    List.any_eq_true.mpr ⟨(key, value), find_mem present, by simp⟩
  rw [← List.findIdx?_isSome] at any
  exact Option.isSome_iff_exists.mp any

/-- The only reference to a container with an entry at a place. -/
structure Entry (store : Store) (address : Address) (index : Nat) : Prop where
  alone : counter store address = 1
  entry : ∃ node entries, nodeAt store address = some node ∧ node.container = some entries ∧ index < entries.length

theorem Entry.of {index : Nat} {node : Node} (found : look store address = some ⟨1, node⟩)
    (opened : node.container = some entries) (inside : index < entries.length) :
    Entry store address index := ⟨counter_eq found, node, entries, by rw [nodeAt, found]; rfl, opened, inside⟩

theorem child_slot_good (good : Good store (address :: roots)) {node : Node}
    (found : look store address = some ⟨1, node⟩) (place : Place) :
    ∃ later result, child_slot store address place = some (later, result) ∧ Good later (address :: roots) ∧ Kept store later roots [] ∧
      ∀ index, result = .ok index → Entry later address index := by
  have reads : nodeAt store address = some node := by rw [nodeAt, found]; rfl
  by_cases wrong : node.access ≠ .readWrite ∧ node.type ≠ (place_kind place node).type
  · refine ⟨store, .error (missing place), ?_, good, Kept.refl store roots [], fun index impossible => by cases impossible⟩
    simp only [child_slot, reads, bind, Option.bind, if_pos wrong]
    rfl
  · obtain ⟨ready, typed, isInit, good, kept, atInit, known⟩ := init_good good found (place_kind place node)
    obtain ⟨opened, result, entries, isOpened, good, keptOpened, atOpened, same⟩ := good.open_alone atInit rfl known
    have kept := kept.trans keptOpened
    cases result with
    | error raised =>
      refine ⟨opened, .error raised, ?_, good, kept, fun index impossible => by cases impossible⟩
      simp only [child_slot, reads, bind, Option.bind, if_neg wrong, isInit, isOpened]
      rfl
    | ok list =>
      have equal := same list rfl
      subst equal
      cases there : position (place_kind place node) place list with
      | some index =>
        refine ⟨opened, .ok index, ?_, good, kept, ?_⟩
        · simp only [child_slot, reads, bind, Option.bind, if_neg wrong, isInit, isOpened, there]
          rfl
        · rintro _ ⟨⟩
          exact Entry.of atOpened rfl (position_lt there)
      | none =>
        by_cases frozen : node.access ≠ .readWrite
        · refine ⟨opened, .error (missing place), ?_, good, kept, fun index impossible => by cases impossible⟩
          simp only [child_slot, reads, bind, Option.bind, if_neg wrong, isInit, isOpened, there, if_pos frozen]
          rfl
        · by_cases isList : place_kind place node = .list
          · refine ⟨opened, .error outOfBound, ?_, good, kept, fun index impossible => by cases impossible⟩
            simp only [child_slot, reads, bind, Option.bind, if_neg wrong, isInit, isOpened, there, if_neg frozen, if_pos isList]
            rfl
          · obtain ⟨more, keptMore⟩ := good.alloc_raw .readWrite ⟨VAR_TYPE_EMPTY, []⟩
            obtain ⟨later, refilled, last, written, atLast⟩ := refill_good [opened.length] [] more (look_append_left atOpened) known
              (fun other => by simpa [Node.kids] using count_put place.key opened.length other list)
            obtain ⟨index, stands⟩ := put_findIdx place.key opened.length list
            refine ⟨later, .ok index, ?_, last, (kept.trans (keptMore.fewer (List.subset_cons_self _ _))).trans written, ?_⟩
            · have filled : refill (opened ++ [some ⟨1, .empty⟩]) address (put place.key opened.length list) = some later := refilled
              simp only [child_slot, reads, bind, Option.bind, if_neg wrong, isInit, isOpened, there, if_neg frozen, if_neg isList, alloc,
                filled, stands]
              rfl
            · rintro _ ⟨⟩
              exact Entry.of atLast rfl (List.findIdx?_eq_some_iff_findIdx_eq.mp stands).1

/-! ### An entry taken out and put back -/

private theorem count_eraseIdx {index : Nat} {key : Key} {child : Address} (there : entries[index]? = some (key, child))
    (other : Address) :
    ((entries.eraseIdx index).map Prod.snd).count other + [child].count other = (entries.map Prod.snd).count other := by
  induction entries generalizing index with
  | nil => cases there
  | cons pair rest ih =>
    cases index with
    | zero =>
      cases there
      simp only [List.eraseIdx_zero, List.tail_cons, List.map_cons, List.count_cons, List.count_nil]
      omega
    | succ index =>
      have later := ih there
      simp only [List.eraseIdx_cons_succ, List.map_cons, List.count_cons, List.count_nil] at later ⊢
      omega

private theorem count_insertIdx (entries : List (Key × Address)) (index : Nat) (key : Key) (child other : Address) :
    ((entries.insertIdx index (key, child)).map Prod.snd).count other ≤ (entries.map Prod.snd).count other + [child].count other := by
  induction entries generalizing index with
  | nil =>
    cases index with
    | zero => simp
    | succ index => simp
  | cons pair rest ih =>
    cases index with
    | zero =>
      simp only [List.insertIdx_zero, List.map_cons, List.count_cons, List.count_nil]
      omega
    | succ index =>
      have later := ih index
      simp only [List.insertIdx_succ_cons, List.map_cons, List.count_cons, List.count_nil] at later ⊢
      omega

theorem take_out_good (good : Good store (address :: roots)) {index : Nat} (entry : Entry store address index) :
    ∃ taken key child node entries, take_out store address index = some (taken, key, child) ∧ Good taken (child :: address :: roots) ∧
      Kept store taken roots [] ∧ look taken address = some ⟨1, node⟩ ∧ node.container = some entries ∧ index ≤ entries.length := by
  obtain ⟨node, entries, reads, opened, inside⟩ := entry.entry
  obtain ⟨⟨count, content⟩, found, rfl⟩ := nodeAt_eq_some reads
  have one : count = 1 := by
    have alone := entry.alone
    rw [counter_eq found] at alone
    exact alone
  subst one
  have opened : content.container = some entries := opened
  obtain ⟨kind, known⟩ := good.kindOf_some List.mem_cons_self found opened
  have there : entries[index]? = some (entries[index].1, entries[index].2) := List.getElem?_eq_getElem inside
  obtain ⟨taken, refilled, good, kept, atTaken⟩ := refill_good [] [entries[index].2] good found known (fun other => by
    rw [count_eraseIdx there other]
    simp [Node.kids, opened])
  refine ⟨taken, entries[index].1, entries[index].2, _, _, ?_, good, kept, atTaken, rfl, ?_⟩
  · simp only [take_out, reads, opened, there, bind, Option.bind, refilled]
    rfl
  · rw [List.length_eraseIdx_of_lt inside]
    omega

theorem put_back_good {child : Address} (good : Good store (child :: address :: roots)) {node : Node}
    (found : look store address = some ⟨1, node⟩) (opened : node.container = some entries) (index : Nat) (key : Key) :
    ∃ later, put_back store address index key child = some later ∧ Good later (address :: roots) ∧ Kept store later roots [] := by
  obtain ⟨kind, known⟩ := good.kindOf_some (List.mem_cons_of_mem _ List.mem_cons_self) found opened
  obtain ⟨later, refilled, good, kept, -⟩ := refill_good [child] [] good found known (fun other => by
    have bound := count_insertIdx entries index key child other
    simpa [Node.kids, opened] using bound)
  refine ⟨later, ?_, good, kept⟩
  have reads : nodeAt store address = some node := by rw [nodeAt, found]; rfl
  simp only [put_back, reads, opened, bind, Option.bind, refilled]

theorem take_out_put_back {later : Store} {child : Address} {node : Node} (found : look store address = some ⟨1, node⟩)
    (opened : node.container = some entries) {index : Nat} (inside : index ≤ entries.length) {key : Key}
    (back : put_back store address index key child = some later) :
    Entry later address index ∧ take_out later address index = some (store, key, child) := by
  have reads : nodeAt store address = some node := by rw [nodeAt, found]; rfl
  simp only [put_back, reads, opened, bind, Option.bind, refill_eq found, Option.some.injEq] at back
  subst back
  have filled : look (store.set address (some ⟨1, { node with container := some (entries.insertIdx index (key, child)) }⟩)) address =
      some ⟨1, { node with container := some (entries.insertIdx index (key, child)) }⟩ := by
    rw [look_set (look_lt found), if_pos rfl]
  refine ⟨Entry.of filled rfl ?_, ?_⟩
  · rw [List.length_insertIdx_of_le_length inside]
    omega
  · have readsNow : nodeAt (store.set address (some ⟨1, { node with container := some (entries.insertIdx index (key, child)) }⟩)) address =
        some { node with container := some (entries.insertIdx index (key, child)) } := by rw [nodeAt, filled]; rfl
    have whole : ({ node with container := some entries } : Node) = node := by rw [← opened]
    have there : (entries.insertIdx index (key, child))[index]? = some (key, child) := by
      rw [List.getElem?_insertIdx_self, if_pos inside]
    simp only [take_out, readsNow, bind, Option.bind, there, refill_eq filled, List.eraseIdx_insertIdx_self, List.set_set, whole]
    rw [set_look found]
    rfl

/-! ## Behind a reference -/

/-- Every representation on the way has one reference only, and the last one meets a
    condition. -/
def Slots (holds : Store → Address → Prop) : List Nat → Store → Address → Prop
  | [], store, address => holds store address
  | index :: rest, store, address => Entry store address index ∧
    ∀ taken key child, take_out store address index = some (taken, key, child) → Slots holds rest taken child

theorem at_slots_alters {used : List Address} {holds : Store → Address → Prop} {change : Store → Address → Changed}
    (spec : ∀ {store address roots}, Good store (address :: roots) → used ⊆ roots → holds store address →
      Alters store roots used (change store address)) (slots : List Nat) :
    ∀ {store : Store} {address : Address} {roots : List Address}, Good store (address :: roots) → used ⊆ roots →
      Slots holds slots store address → Alters store roots used (at_slots change slots store address) := by
  induction slots with
  | nil =>
    intro store address roots good within reached
    exact spec good within reached
  | cons index rest ih =>
    intro store address roots good within reached
    obtain ⟨entry, below⟩ := reached
    obtain ⟨taken, key, child, node, entries, isTaken, good, kept, atTaken, opened, -⟩ := take_out_good good entry
    have alone := ((good.perm (List.Perm.swap address child roots)).single (counter_eq atTaken)).1
    have unused : address ∉ used := fun member => alone (List.mem_cons_of_mem _ (within member))
    obtain ⟨inner, other, outcome, changed, good, spared⟩ :=
      ih good (fun _ member => List.mem_cons_of_mem _ (within member)) (below taken key child isTaken)
    have still : look inner address = some ⟨1, node⟩ := by
      rw [spared.alone address List.mem_cons_self (counter_eq atTaken) unused]
      exact atTaken
    obtain ⟨later, isBack, good, keptBack⟩ := put_back_good good still opened index key
    refine ⟨later, address, outcome, ?_, good, ?_⟩
    · simp only [at_slots, isTaken, bind, Option.bind, changed, isBack]
      rfl
    · exact ((kept.more (by simp)).toSpared.trans (spared.fewer (List.subset_cons_self _ _))).trans (keptBack.more (by simp)).toSpared

/-- The reference that `At` gives leads through representations with one owner. -/
theorem at_path_good (path : List Place) : ∀ {store : Store} {address : Address} {roots : List Address}, Good store (address :: roots) →
    ∃ later other result, at_path path store address = some (later, other, result) ∧ Good later (other :: roots) ∧
      Kept store later roots [] ∧ ∀ slots, result = .ok slots → Slots (fun _ _ => True) slots later other := by
  induction path with
  | nil =>
    intro store address roots good
    refine ⟨store, address, .ok [], rfl, good, Kept.refl store roots [], ?_⟩
    rintro slots ⟨⟩
    trivial
  | cons place rest ih =>
    intro store address roots good
    obtain ⟨own, mine, node, isVal, good, kept, atVal, -⟩ := good.val
    obtain ⟨ready, found, isFound, good, keptFound, entry⟩ := child_slot_good good atVal place
    have kept := kept.trans keptFound
    cases found with
    | error raised =>
      refine ⟨ready, mine, .error raised, ?_, good, kept, fun slots impossible => by cases impossible⟩
      simp only [at_path, isVal, bind, Option.bind, isFound]
      rfl
    | ok index =>
      obtain ⟨taken, key, child, node, entries, isTaken, good, keptTaken, atTaken, opened, inside⟩ := take_out_good good (entry index rfl)
      obtain ⟨inner, other, result, isInner, good, keptInner, below⟩ := ih good
      have still : look inner mine = some ⟨1, node⟩ := by
        rw [keptInner.alone mine List.mem_cons_self (counter_eq atTaken) (by simp)]
        exact atTaken
      obtain ⟨later, isBack, good, keptBack⟩ := put_back_good good still opened index key
      refine ⟨later, mine, result.map (fun slots => index :: slots), ?_, good, ?_, ?_⟩
      · simp only [at_path, isVal, bind, Option.bind, isFound, isTaken, isInner, isBack]
        rfl
      · exact ((kept.trans keptTaken).trans (keptInner.fewer (List.subset_cons_self _ _))).trans keptBack
      · intro slots reached
        cases result with
        | error raised => cases reached
        | ok inside_slots =>
          cases reached
          obtain ⟨stands, again⟩ := take_out_put_back still opened inside isBack
          refine ⟨stands, ?_⟩
          intro taken key child also
          cases again.symm.trans also
          exact below inside_slots rfl

/-! ## Every mutator -/

/-- The variant that is put somewhere. -/
def Mutator.uses : Mutator → Option Nat
  | .assign source | .insertName _ source | .insertIndex _ source | .append source | .merge source => some source
  | _ => none

/-- No item of a list is removed, and what is merged or frozen can be read to its end. -/
def Fits (source : Nat → Option Address) : Mutator → Store → Address → Prop
  | .removeIndex index, store, address => Beyond index store address
  | .merge other, store, address => ∀ merged, source other = some merged → Mergeable merged store address
  | .freeze, store, address => ∀ own mine, val store address = some (own, mine) → Writes own mine
  | _, _, _ => True

theorem mutate_alters {source : Nat → Option Address} {mutator : Mutator} {used : List Address}
    (sources : ∀ other, mutator.uses = some other → ∃ given, source other = some given ∧ given ∈ used)
    (good : Good store (address :: roots)) (within : used ⊆ roots) (fits : Fits source mutator store address) :
    Alters store roots used (mutate source mutator store address) := by
  have single {given : Address} (member : given ∈ used) : [given] ⊆ used := by simpa using member
  cases mutator with
  | assign other =>
    obtain ⟨given, isGiven, member⟩ := sources other rfl
    simp only [mutate, isGiven, bind, Option.bind]
    exact ((assign_changes good (.root (within member))).more (single member)).alters
  | insertName name other =>
    obtain ⟨given, isGiven, member⟩ := sources other rfl
    simp only [mutate, isGiven, bind, Option.bind]
    exact ((insert_changes good (.root (within member)) _ _).more (single member)).alters
  | insertIndex index other =>
    obtain ⟨given, isGiven, member⟩ := sources other rfl
    simp only [mutate, isGiven, bind, Option.bind]
    exact ((insert_changes good (.root (within member)) _ _).more (single member)).alters
  | append other =>
    obtain ⟨given, isGiven, member⟩ := sources other rfl
    simp only [mutate, isGiven, bind, Option.bind]
    exact ((insert_changes good (.root (within member)) _ _).more (single member)).alters
  | merge other =>
    obtain ⟨given, isGiven, member⟩ := sources other rfl
    simp only [mutate, isGiven, bind, Option.bind]
    exact (merge_alters good (within member) (fits given isGiven)).more (single member)
  | removeName name => exact ((remove_name_changes good name).more (by simp)).alters
  | removeIndex index => exact ((remove_index_changes good fits).more (by simp)).alters
  | freeze => exact (freeze_alters good fits).more (by simp)
  | unfreeze => exact ((unfreeze_changes good).more (by simp)).alters
  | clear => exact ((clear_changes good).more (by simp)).alters

/-- A representation that has other owners survives being attached to itself. -/
def Survives (store : Store) (address : Address) : Prop :=
  ∀ cell, look store address = some cell → cell.content.access = .readWrite → 1 < cell.count

theorem assign_self (good : Good store (address :: roots)) (survives : Survives store address) :
    Alters store roots [] (VariantHeap.assign address store address) := by
  obtain ⟨cell, found⟩ := good.there List.mem_cons_self
  have reads : nodeAt store address = some cell.content := by rw [nodeAt, found]; rfl
  by_cases writable : cell.content.access ≠ .readWrite
  · refine ⟨store, address, .error { line := "variant access violation; Assign" }, ?_, good, (Kept.refl store roots []).toSpared⟩
    simp only [VariantHeap.assign, reads, bind, Option.bind, if_pos writable]
    rfl
  · have isWritable : cell.content.access = .readWrite := by simpa using writable
    have shared := survives cell found isWritable
    have dropped : drop store address = some (store.set address (some { cell with count := cell.count - 1 })) := by
      rw [drop, Nat.add_comm]
      simp only [release, found, if_neg (Nat.ne_of_gt shared)]
    have atFreed : look (store.set address (some { cell with count := cell.count - 1 })) address =
        some { cell with count := cell.count - 1 } := by
      rw [look_set (look_lt found), if_pos rfl]
    have again : ({ cell with count := cell.count - 1 + 1 } : Cell Node) = cell := by
      rw [Nat.sub_add_cancel (Nat.le_of_lt shared)]
    have retained : retain (store.set address (some { cell with count := cell.count - 1 })) address = some store := by
      simp only [retain, atFreed, Option.map_some, List.set_set, again, set_look found]
    have notDerived : cell.content.access ≠ .derived := by rw [isWritable]; simp
    refine ⟨store, address, .ok (), ?_, good, (Kept.refl store roots []).toSpared⟩
    simp only [VariantHeap.assign, bind, Option.bind, dropped, copy, nodeAt, found, atFreed, Option.map_some, if_neg writable,
      if_neg notDerived, retained]
    rfl

/-! ## Get -/

/-- The container that `Get` looks into can be made. -/
def Readable (place : Place) (store : Store) (address : Address) : Prop :=
  ∀ node, nodeAt store address = some node → node.type = (place_kind place node).type → node.container = none →
    (parse (place_kind place node) node.packed.payload).2 = none

theorem get_child_good (good : Good store roots) {default : Address} (member : address ∈ roots)
    (fallback : default ∈ roots) {place : Place} (readable : Readable place store address) :
    ∃ later copied, get_child store address place default = some (later, .ok copied) ∧ Good later (copied :: roots) ∧
      ∀ root ∈ roots, ∀ tree, Shows store root tree → Shows later root tree := by
  obtain ⟨cell, found⟩ := good.there member
  have reads : nodeAt store address = some cell.content := by rw [nodeAt, found]; rfl
  by_cases other : cell.content.type ≠ (place_kind place cell.content).type
  · obtain ⟨later, copied, isCopy, good, kept⟩ := copy_held good (List.Subset.refl roots) (.root fallback)
    refine ⟨later, copied, ?_, good, kept.shows⟩
    simp only [get_child, reads, bind, Option.bind, if_pos other, isCopy]
    rfl
  · have typed : cell.content.type = (place_kind place cell.content).type := by simpa using other
    have known : kindOf cell.content.type = some (place_kind place cell.content) := by rw [typed, kindOf_type]
    obtain ⟨opened, entries, isOpened, good, kept, made, -⟩ := good.open_whole found known (readable _ reads typed)
    have copies {child : Address} {used : List Address} (held : Held opened roots child used)
        (chosen : ((position (place_kind place cell.content) place entries).bind (fun index => entries[index]?)).elim default Prod.snd = child) :
        ∃ later copied, get_child store address place default = some (later, .ok copied) ∧ Good later (copied :: roots) ∧
          ∀ root ∈ roots, ∀ tree, Shows store root tree → Shows later root tree := by
      obtain ⟨later, copied, isCopy, good, keptCopy⟩ := copy_held good (List.Subset.refl roots) held
      refine ⟨later, copied, ?_, good, fun root isRoot tree shows => keptCopy.shows root isRoot tree (kept.shows root isRoot tree shows)⟩
      simp only [get_child, reads, bind, Option.bind_some, if_neg other, isOpened, chosen, isCopy]
      rfl
    cases there : (position (place_kind place cell.content) place entries).bind (fun index => entries[index]?) with
    | none => exact copies (.root fallback) (by rw [there]; rfl)
    | some pair =>
      obtain ⟨index, -, isPair⟩ := Option.bind_eq_some_iff.mp there
      have atOpened : nodeAt opened address = some { cell.content with container := some entries } := by rw [nodeAt, made]; rfl
      exact copies (.kid member atOpened (List.mem_map.mpr ⟨pair, List.mem_of_getElem? isPair, rfl⟩)) (by rw [there]; rfl)

/-! ## Steps of the pool -/

/-- The variant that an event changes. -/
def Event.changes (pool : Pool) : Event → Option Nat
  | .edit target _ | .atPath target _ => some target
  | .through _ => pool.reference.map Reference.target
  | _ => none

/-- No payload that cannot be read is opened where others see it, no item of a list is
    removed, no variant is put into itself, and nothing on the way of a reference has
    another owner when it is used. -/
def Allowed (pool : Pool) : Event → Prop
  | .create _ _ => True
  | .copy source | .clone source => source < pool.objects.length
  | .get source place default => default < pool.objects.length ∧
    ∃ address, pool.objects[source]? = some address ∧ Readable place pool.store address
  | .edit target mutator => ∃ address, pool.objects[target]? = some address ∧
    Fits (pool.source target mutator) mutator pool.store address ∧
    ∀ source, mutator.uses = some source → source < pool.objects.length ∧
      (source = target → mutator = .assign target ∧ Survives pool.store address)
  | .atPath target _ => target < pool.objects.length
  | .through mutator => ∃ reference address, pool.reference = some reference ∧ pool.objects[reference.target]? = some address ∧
    Slots (Fits (pool.other reference.target) mutator) reference.slots pool.store address ∧
    ∀ source, mutator.uses = some source → source < pool.objects.length ∧ source ≠ reference.target

/-- The tree that is observed through a variant of the pool. -/
def Observes (pool : Pool) (index : Nat) (tree : Tree) : Prop :=
  ∃ address, pool.objects[index]? = some address ∧ Shows pool.store address tree

/-- The other variants show what they did. -/
structure Isolated (pool later : Pool) (changes : Option Nat) : Prop where
  good : Good later.store later.objects
  same : ∀ other tree, changes ≠ some other → Observes pool other tree → Observes later other tree

section
variable {pool : Pool}

variable {target : Nat}

private theorem objects_split {address : Address} (there : pool.objects[target]? = some address) :
    pool.objects.Perm (address :: pool.objects.eraseIdx target) := by
  obtain ⟨inside, rfl⟩ := List.getElem?_eq_some_iff.mp there
  exact (List.getElem_cons_eraseIdx_perm inside).symm

private theorem isolated_set {address : Address} (there : pool.objects[target]? = some address) {store : Store}
    {other : Address} {used : List Address} (later : Good store (other :: pool.objects.eraseIdx target))
    (spared : Spared pool.store store (pool.objects.eraseIdx target) used) (reference : Option Reference) :
    Isolated pool ⟨store, pool.objects.set target other, reference⟩ (some target) := by
  obtain ⟨inside, -⟩ := List.getElem?_eq_some_iff.mp there
  refine ⟨later.perm (List.set_perm_cons_eraseIdx inside other).symm, ?_⟩
  rintro index tree differs ⟨seen, isSeen, shows⟩
  have apart : target ≠ index := fun same => differs (by rw [same])
  refine ⟨seen, ?_, ?_⟩
  · rw [List.getElem?_set_ne apart]
    exact isSeen
  · exact spared.shows seen (List.mem_eraseIdx_iff_getElem?.mpr ⟨index, Ne.symm apart, isSeen⟩) tree shows

private theorem isolated_append {store : Store} {other : Address} (later : Good store (other :: pool.objects))
    (shows : ∀ root ∈ pool.objects, ∀ tree, Shows pool.store root tree → Shows store root tree) :
    Isolated pool { pool with store, objects := pool.objects ++ [other] } none := by
  refine ⟨later.perm (List.perm_append_singleton other pool.objects).symm, ?_⟩
  rintro index tree - ⟨seen, isSeen, shown⟩
  refine ⟨seen, ?_, shows seen (List.mem_of_getElem? isSeen) tree shown⟩
  rw [List.getElem?_append_left (List.getElem?_eq_some_iff.mp isSeen).1]
  exact isSeen

private theorem alters_isolated {address : Address} (there : pool.objects[target]? = some address) {used : List Address}
    {result : Changed} (alters : Alters pool.store (pool.objects.eraseIdx target) used result)
    (reference : Option Reference) :
    ∃ store other outcome, result = some (store, other, outcome) ∧
      Isolated pool ⟨store, pool.objects.set target other, reference⟩ (some target) := by
  obtain ⟨store, other, outcome, done, later, spared⟩ := alters
  exact ⟨store, other, outcome, done, isolated_set there later spared reference⟩

private theorem uses_beside {mutator : Mutator}
    (sources : ∀ source, mutator.uses = some source → source < pool.objects.length ∧ source ≠ target) :
    ∃ used, used ⊆ pool.objects.eraseIdx target ∧
      ∀ other, mutator.uses = some other → ∃ given, pool.objects[other]? = some given ∧ given ∈ used := by
  cases used : mutator.uses with
  | none => exact ⟨[], by simp, fun other impossible => by cases impossible⟩
  | some source =>
    obtain ⟨inside, differs⟩ := sources source used
    have there : pool.objects[source]? = some pool.objects[source] := List.getElem?_eq_getElem inside
    refine ⟨[pool.objects[source]], ?_, ?_⟩
    · rintro given member
      rw [List.mem_singleton.mp member]
      exact List.mem_eraseIdx_iff_getElem?.mpr ⟨source, differs, there⟩
    · rintro other ⟨⟩
      exact ⟨_, there, List.mem_singleton_self _⟩

private theorem other_of_ne {source : Nat} (differs : source ≠ target) :
    pool.other target source = pool.objects[source]? := by
  rw [Pool.other, if_neg differs]

private theorem source_of_ne {source : Nat} (mutator : Mutator) (differs : source ≠ target) :
    pool.source target mutator source = pool.objects[source]? := by
  cases mutator <;> simp [Pool.source, Pool.other, differs]

theorem step_isolated (good : Good pool.store pool.objects) {event : Event} (allowed : Allowed pool event) :
    ∃ later, step pool event = some later ∧ Isolated pool later (event.changes pool) := by
  cases event with
  | create access packed =>
    obtain ⟨more, kept⟩ := good.alloc_raw access packed
    exact ⟨_, rfl, isolated_append more kept.shows⟩
  | copy source =>
    have there : pool.objects[source]? = some pool.objects[source] := List.getElem?_eq_getElem allowed
    obtain ⟨store, other, isCopy, more, kept⟩ := copy_held good (List.Subset.refl _) (.root (List.mem_of_getElem? there))
    refine ⟨_, ?_, isolated_append more kept.shows⟩
    simp only [step, there, bind, Option.bind, isCopy]
    rfl
  | clone source =>
    have there : pool.objects[source]? = some pool.objects[source] := List.getElem?_eq_getElem allowed
    obtain ⟨tree, shows⟩ := good.shows _ (List.mem_of_getElem? there)
    obtain ⟨store, other, -, isClone, more, kept, -⟩ := good.clone shows
    refine ⟨_, ?_, isolated_append more kept.shows⟩
    simp only [step, there, bind, Option.bind, isClone]
    rfl
  | get source place default =>
    obtain ⟨inside, address, there, readable⟩ := allowed
    have fallback : pool.objects[default]? = some pool.objects[default] := List.getElem?_eq_getElem inside
    obtain ⟨store, other, isGet, more, shows⟩ :=
      get_child_good good (List.mem_of_getElem? there) (List.mem_of_getElem? fallback) readable
    refine ⟨_, ?_, isolated_append more shows⟩
    simp only [step, there, fallback, bind, Option.bind, isGet]
    rfl
  | edit target mutator =>
    obtain ⟨address, there, fits, sources⟩ := allowed
    have good := good.perm (objects_split there)
    have alters : ∃ used, Alters pool.store (pool.objects.eraseIdx target) used
        (mutate (pool.source target mutator) mutator pool.store address) := by
      by_cases itself : mutator.uses = some target
      · obtain ⟨rfl, survives⟩ := (sources target itself).2 rfl
        refine ⟨[], ?_⟩
        simp only [mutate, Pool.source, there, bind, Option.bind]
        exact assign_self good survives
      · have beside : ∀ source, mutator.uses = some source → source < pool.objects.length ∧ source ≠ target :=
          fun source used => ⟨(sources source used).1, fun same => itself (same ▸ used)⟩
        obtain ⟨used, within, given⟩ := uses_beside beside
        refine ⟨used, mutate_alters ?_ good within fits⟩
        intro other isUsed
        rw [source_of_ne mutator (beside other isUsed).2]
        exact given other isUsed
    obtain ⟨used, alters⟩ := alters
    obtain ⟨store, other, outcome, done, isolated⟩ := alters_isolated there alters (pool.changed target pool.store address).reference
    refine ⟨_, ?_, isolated⟩
    simp only [step, there, bind, Option.bind, done]
    rfl
  | atPath target path =>
    have there : pool.objects[target]? = some pool.objects[target] := List.getElem?_eq_getElem allowed
    obtain ⟨store, other, result, done, later, kept, -⟩ := at_path_good path (good.perm (objects_split there))
    refine ⟨_, ?_, isolated_set there later kept.toSpared (result.toOption.map (fun slots => ⟨target, slots⟩))⟩
    simp only [step, there, bind, Option.bind, done]
    rfl
  | through mutator =>
    obtain ⟨reference, address, held, there, reached, sources⟩ := allowed
    obtain ⟨used, within, given⟩ := uses_beside sources
    have spec {store : Store} {address : Address} {roots : List Address} (good : Good store (address :: roots)) (within : used ⊆ roots)
        (fits : Fits (pool.other reference.target) mutator store address) :
        Alters store roots used (mutate (pool.other reference.target) mutator store address) := by
      refine mutate_alters ?_ good within fits
      intro other isUsed
      rw [other_of_ne (sources other isUsed).2]
      exact given other isUsed
    have alters := at_slots_alters spec reference.slots (good.perm (objects_split there)) within reached
    obtain ⟨store, other, outcome, done, isolated⟩ := alters_isolated there alters pool.reference
    have target : Event.changes pool (.through mutator) = some reference.target := by rw [Event.changes, held]; rfl
    refine ⟨⟨store, pool.objects.set reference.target other, pool.reference⟩, ?_, ?_⟩
    · simp only [step, held, there, bind, Option.bind, done]
      rfl
    · rw [target]
      exact isolated

theorem good_none : Good Pool.none.store Pool.none.objects :=
  ⟨fun address => by simp [Pool.none, edges], fun root member => by cases member⟩

theorem run_good (run : Run step Allowed Pool.none pool) : Good pool.store pool.objects := by
  refine run.invariant (fun pool => Good pool.store pool.objects) good_none ?_
  intro pool event later good allowed moved
  obtain ⟨reached, same, isolated⟩ := step_isolated good allowed
  cases moved.symm.trans same
  exact isolated.good

theorem Observes.unique {index : Nat} {tree other : Tree} (left : Observes pool index tree) (right : Observes pool index other) :
    tree = other := by
  obtain ⟨address, there, shows⟩ := left
  obtain ⟨also, alsoThere, alsoShows⟩ := right
  cases there.symm.trans alsoThere
  exact shows.unique alsoShows

end

/-- An operation on one variant leaves the tree of every other one as it was. -/
theorem variants_isolated {pool : Pool} (run : Run step Allowed Pool.none pool) {event : Event} (allowed : Allowed pool event) :
    ∃ later, step pool event = some later ∧ ∀ other < pool.objects.length, event.changes pool ≠ some other →
      ∃ tree, ∀ seen, (Observes pool other seen ↔ seen = tree) ∧ (Observes later other seen ↔ seen = tree) := by
  have good := run_good run
  obtain ⟨later, moved, isolated⟩ := step_isolated good allowed
  refine ⟨later, moved, ?_⟩
  intro other inside differs
  obtain ⟨tree, shows⟩ := good.shows _ (List.getElem_mem inside)
  have before : Observes pool other tree := ⟨_, List.getElem?_eq_getElem inside, shows⟩
  have after := isolated.same other tree differs before
  refine ⟨tree, fun seen => ⟨⟨fun also => also.unique before, ?_⟩, ⟨fun also => also.unique after, ?_⟩⟩⟩
  · rintro rfl
    exact before
  · rintro rfl
    exact after

/-- A copy shows what it did after the original was cleared. -/
theorem variants_isolated_copy :
    ∃ pool later, Run step Allowed Pool.none pool ∧ step pool (.edit 0 .clear) = some later ∧
      ∃ tree, ∀ seen, (Observes pool 1 seen ↔ seen = tree) ∧ (Observes later 1 seen ↔ seen = tree) := by
  have created : step Pool.none (.create .readWrite ⟨VAR_TYPE_UINT, [5]⟩) =
      some ⟨[some ⟨1, .raw .readWrite ⟨VAR_TYPE_UINT, [5]⟩⟩], [0], none⟩ := rfl
  have copied : step ⟨[some ⟨1, .raw .readWrite ⟨VAR_TYPE_UINT, [5]⟩⟩], [0], none⟩ (.copy 0) =
      some ⟨[some ⟨2, .raw .readWrite ⟨VAR_TYPE_UINT, [5]⟩⟩], [0, 0], none⟩ := rfl
  have first : Run step Allowed Pool.none _ := .next .start (show Allowed Pool.none (.create _ _) from trivial) created
  have run := first.next (show Allowed _ (.copy 0) from Nat.zero_lt_one) copied
  have allowed : Allowed ⟨[some ⟨2, .raw .readWrite ⟨VAR_TYPE_UINT, [5]⟩⟩], [0, 0], none⟩ (.edit 0 .clear) :=
    ⟨0, rfl, trivial, fun source used => by cases used⟩
  obtain ⟨later, moved, same⟩ := variants_isolated run allowed
  exact ⟨_, later, run, moved, same 1 (by decide) (by decide)⟩

private def number : Packed := ⟨VAR_TYPE_UINT, [5]⟩

/-- A map with one entry, two variants that refer to it, and a reference to the entry. -/
private def under_reference : Pool :=
  ⟨[some ⟨2, .raw .readWrite number⟩, some ⟨2, .filled .map [(.name [120], 0)]⟩], [0, 1, 1], some ⟨1, [0]⟩⟩

private def cleared_under_reference : Pool :=
  ⟨[some ⟨1, .raw .readWrite number⟩, some ⟨2, .filled .map [(.name [120], 2)]⟩, some ⟨1, .empty⟩], [0, 1, 1], some ⟨1, [0]⟩⟩

/-- A copy made after `At` changes with the entry, and an item of a list cannot be removed. -/
theorem reference_changes_copy :
    (∃ pool later tree, runs step Pool.none [.create .readWrite number, .create .readWrite ⟨VAR_TYPE_EMPTY, []⟩,
        .edit 1 (.insertName [120] 0), .atPath 1 [.name [120]], .copy 1] = some pool ∧
      step pool (.through .clear) = some later ∧ Event.changes pool (.through .clear) = some 1 ∧
      Observes pool 2 tree ∧ ¬ Observes later 2 tree) ∧
    (runs step Pool.none [.create .readWrite number, .create .readWrite ⟨VAR_TYPE_EMPTY, []⟩, .edit 1 (.append 0),
        .edit 1 (.removeIndex 0)] = none) := by
  have before : Observes under_reference 2 (.node .map [(.name [120], .leaf VAR_TYPE_UINT [5])]) :=
    ⟨1, rfl, .opened rfl rfl rfl (.cons _ (.raw rfl rfl (.plain rfl)) .nil)⟩
  have after : Observes cleared_under_reference 2 (.node .map [(.name [120], .leaf VAR_TYPE_EMPTY [])]) :=
    ⟨1, rfl, .opened rfl rfl rfl (.cons _ (.raw rfl rfl (.plain rfl)) .nil)⟩
  refine ⟨⟨under_reference, cleared_under_reference, _, rfl, rfl, rfl, before, ?_⟩, rfl⟩
  intro same
  cases same.unique after

/-- What a variant, or a container of one, refers to is there, and no fewer references are counted than there are. -/
theorem no_variant_dangles {pool : Pool} (run : Run step Allowed Pool.none pool) {address : Address}
    (referred : address ∈ pool.objects ∨ address ∈ edges Node.kids pool.store) : ∃ cell, look pool.store address = some cell ∧
      (edges Node.kids pool.store).count address + pool.objects.count address ≤ cell.count := by
  have counted := (run_good run).counted address
  have positive : 0 < (edges Node.kids pool.store).count address + pool.objects.count address := by
    rcases referred with object | kid
    · exact Nat.add_pos_right _ (List.count_pos_iff.mpr object)
    · exact Nat.add_pos_left (List.count_pos_iff.mpr kid) _
  rw [counter] at counted
  cases found : look pool.store address with
  | none =>
    rw [found] at counted
    exact absurd counted (by simpa using positive.ne')
  | some cell =>
    rw [found] at counted
    exact ⟨cell, rfl, counted⟩

/-- Two variants on one cell, after a copy. -/
theorem no_variant_dangles_copied : ∃ pool cell, Run step Allowed Pool.none pool ∧ pool.objects = [0, 0] ∧
    look pool.store 0 = some cell ∧ (edges Node.kids pool.store).count 0 + pool.objects.count 0 ≤ cell.count := by
  have created : step Pool.none (.create .readWrite ⟨VAR_TYPE_UINT, [5]⟩) =
      some ⟨[some ⟨1, .raw .readWrite ⟨VAR_TYPE_UINT, [5]⟩⟩], [0], none⟩ := rfl
  have first : Run step Allowed Pool.none _ := .next .start (show Allowed Pool.none (.create _ _) from trivial) created
  have run := first.next (show Allowed _ (.copy 0) from Nat.zero_lt_one) rfl
  obtain ⟨cell, found⟩ := no_variant_dangles run (.inl (List.mem_cons_self : 0 ∈ [0, 0]))
  exact ⟨_, cell, run, rfl, found⟩

/-- The reference that `At` gives can be used at once: `At` has left nothing shared on the way. -/
theorem reference_reaches {pool : Pool} (run : Run step Allowed Pool.none pool) {target : Nat} {path : List Place} {later : Pool}
    (moved : step pool (.atPath target path) = some later) {reference : Reference} (held : later.reference = some reference) :
    ∃ address, later.objects[reference.target]? = some address ∧ Slots (fun _ _ => True) reference.slots later.store address := by
  have good := run_good run
  cases there : pool.objects[target]? with
  | none =>
    simp only [step, there, bind, Option.bind] at moved
    cases moved
  | some address =>
    obtain ⟨store, other, result, done, -, -, reached⟩ := at_path_good path (good.perm (objects_split there))
    simp only [step, there, bind, Option.bind, done] at moved
    cases moved
    cases result with
    | error raised => cases held
    | ok slots =>
      cases held
      refine ⟨other, ?_, reached slots rfl⟩
      exact List.getElem?_set_self (List.getElem?_eq_some_iff.mp there).1

/-- A variant that is shared, and a reference to a new entry of it. -/
theorem reference_reaches_shared : ∃ pool later address, Run step Allowed Pool.none pool ∧ pool.objects = [0, 0] ∧
    step pool (.atPath 0 [.name [120]]) = some later ∧ later.objects[0]? = some address ∧ Slots (fun _ _ => True) [0] later.store address := by
  have created : step Pool.none (.create .readWrite ⟨VAR_TYPE_EMPTY, []⟩) =
      some ⟨[some ⟨1, .raw .readWrite ⟨VAR_TYPE_EMPTY, []⟩⟩], [0], none⟩ := rfl
  have first : Run step Allowed Pool.none _ := .next .start (show Allowed Pool.none (.create _ _) from trivial) created
  have run := first.next (show Allowed _ (.copy 0) from Nat.zero_lt_one) rfl
  have moved : step ⟨[some ⟨2, .raw .readWrite ⟨VAR_TYPE_EMPTY, []⟩⟩], [0, 0], none⟩ (.atPath 0 [.name [120]]) = some _ := rfl
  obtain ⟨address, found⟩ := reference_reaches run moved rfl
  exact ⟨_, _, address, run, rfl, moved, found⟩

end TaskExplorer.VariantPool
