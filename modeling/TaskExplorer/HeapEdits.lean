import TaskExplorer.HeapTrees

/-!
# Changing a shared variant

Every mutator gives the variant a representation of its own before it changes it.
What the other variants show is the same afterwards, as long as no variant is put
into itself, no item of a list is removed, and no payload that cannot be read to
its end is opened where others see it.
-/

namespace TaskExplorer.HeapEdits
open Codec OrderedMap RefHeap VariantFormat VariantContainer
open VariantValue VariantTree VariantBuild VariantHeap HeapTrees

/-! ## References of a row of entries -/

theorem count_put (key : Key) (value other : Address) (entries : List (Key × Address)) :
    ((put key value entries).map Prod.snd).count other ≤ (entries.map Prod.snd).count other + [value].count other := by
  induction entries with
  | nil => simp [put]
  | cons pair rest ih =>
    obtain ⟨first, old⟩ := pair
    simp only [put]
    split_ifs
    · simp only [List.map_cons, List.count_cons, List.count_nil]
      omega
    · simp only [List.map_cons, List.count_cons, List.count_nil]
      omega
    · simp only [List.map_cons, List.count_cons, List.count_nil] at ih ⊢
      omega

private theorem count_place (kind : Kind) (key : Key) (value other : Address) (entries : List (Key × Address)) :
    ((place kind entries (key, value)).map Prod.snd).count other ≤ (entries.map Prod.snd).count other + [value].count other := by
  cases kind with
  | list => simp [place]
  | map => exact count_put key value other entries
  | index => exact count_put key value other entries

variable {entries : List (Key × Address)} {store : Store} {roots used : List Address} {source address : Address}
  {node : Node}

private theorem count_replace {key : Key} {value old : Address} (found : find key entries = some old) (other : Address)
    :
    ((replace key value entries).map Prod.snd).count other + [old].count other ≤
      (entries.map Prod.snd).count other + [value].count other := by
  induction entries with
  | nil => cases found
  | cons pair rest ih =>
    obtain ⟨first, held⟩ := pair
    by_cases here : first = key
    · simp only [find, if_pos here, Option.some.injEq] at found
      subst found
      simp only [replace, if_pos here, List.map_cons, List.count_cons, List.count_nil]
      omega
    · simp only [find, if_neg here] at found
      have later := ih found
      simp only [replace, if_neg here, List.map_cons, List.count_cons, List.count_nil] at later ⊢
      omega

private theorem count_erase {key : Key} {old : Address} (found : find key entries = some old) (other : Address) :
    ((erase key entries).map Prod.snd).count other + [old].count other ≤ (entries.map Prod.snd).count other := by
  have filtered (rows : List (Key × Address)) : ((erase key rows).map Prod.snd).count other ≤ (rows.map Prod.snd).count other :=
    (List.filter_sublist.map Prod.snd).count_le other
  induction entries with
  | nil => cases found
  | cons pair rest ih =>
    obtain ⟨first, held⟩ := pair
    by_cases here : first = key
    · simp only [find, if_pos here, Option.some.injEq] at found
      subst found
      have fewer := filtered rest
      have gone : erase key ((first, held) :: rest) = erase key rest := by simp [erase, here]
      rw [gone]
      simp only [List.map_cons, List.count_cons, List.count_nil]
      omega
    · simp only [find, if_neg here] at found
      have later := ih found
      have kept : erase key ((first, held) :: rest) = (first, held) :: erase key rest := by simp [erase, here]
      rw [kept]
      simp only [List.map_cons, List.count_cons, List.count_nil] at later ⊢
      omega

/-! ## What is put into a container -/

/-- A root, or a child of one. -/
inductive Held (store : Store) (roots : List Address) : Address → List Address → Prop where
  | root {source : Address} (member : source ∈ roots) : Held store roots source [source]
  | kid {parent source : Address} {node : Node} (member : parent ∈ roots) (there : nodeAt store parent = some node)
      (kid : source ∈ node.kids) : Held store roots source []

theorem Held.kept {later : Store} (held : Held store roots source used) (kept : Kept store later roots []) :
    Held later roots source used := by
  cases held with
  | root member => exact .root member
  | kid member there kid => exact .kid member ((kept.holds _ member (by simp)).trans there) kid

theorem nodeAt_eq_some (there : nodeAt store address = some node) :
    ∃ cell, look store address = some cell ∧ cell.content = node := by
  obtain ⟨cell, found, same⟩ := Option.map_eq_some_iff.mp there
  exact ⟨cell, found, same⟩

theorem held_shows (good : Good store roots) (held : Held store roots source used) :
    ∃ cell tree, look store source = some cell ∧ Shows store source tree := by
  cases held with
  | root member =>
    obtain ⟨tree, shows⟩ := good.shows source member
    obtain ⟨cell, found⟩ := good.there member
    exact ⟨cell, tree, found, shows⟩
  | kid member there kid =>
    obtain ⟨cell, found, rfl⟩ := nodeAt_eq_some there
    obtain ⟨pair, among, rfl⟩ := List.mem_map.mp kid
    cases opened : cell.content.container with
    | none =>
      rw [opened] at among
      cases among
    | some entries =>
      rw [opened] at among
      obtain ⟨tree, shows⟩ := good.kid member found opened among
      obtain ⟨cell, found⟩ := shows.found
      exact ⟨cell, tree, found, shows⟩

theorem retain_held {some : List Address} (good : Good store roots) (subset : some ⊆ roots)
    (held : Held store some source used) :
    ∃ later, retain store source = .some later ∧ Good later (source :: roots) ∧ Kept store later roots used := by
  cases held with
  | root member =>
    obtain ⟨tree, shows⟩ := good.shows source (subset member)
    obtain ⟨cell, found⟩ := good.there (subset member)
    obtain ⟨later, retained, more, kept, -⟩ := good.retain found shows
    exact ⟨later, retained, more, kept⟩
  | kid member there kid =>
    obtain ⟨cell, tree, found, shows⟩ := held_shows good (.kid (subset member) there kid)
    obtain ⟨later, retained, more, kept, contents⟩ := good.retain found shows
    obtain ⟨parent, atParent, rfl⟩ := nodeAt_eq_some there
    refine ⟨later, retained, more, ⟨kept.shows, ?_⟩, fun root _ _ => contents root⟩
    intro root isRoot one _
    refine kept.alone root isRoot one ?_
    intro same
    rw [List.mem_singleton.mp same] at isRoot one
    exact good.unreferred isRoot one (mem_edges atParent kid)

theorem copy_held {some : List Address} (good : Good store roots) (subset : some ⊆ roots)
    (held : Held store some source used) :
    ∃ later child, copy store source = .some (later, child) ∧ Good later (child :: roots) ∧ Kept store later roots used := by
  have inRoots : Held store roots source used := by
    cases held with
    | root member => exact .root (subset member)
    | kid member there kid => exact .kid (subset member) there kid
  obtain ⟨cell, tree, found, -⟩ := held_shows good inRoots
  by_cases derived : cell.content.access = .derived
  · obtain ⟨more, kept⟩ := good.alloc_raw .readOnly cell.content.packed
    refine ⟨_, _, ?_, more, kept.more (by simp)⟩
    simp only [copy, nodeAt, found, Option.map_some, bind, Option.bind, if_pos derived]
    rfl
  · obtain ⟨later, retained, more, kept⟩ := retain_held good subset held
    refine ⟨later, source, ?_, more, kept⟩
    simp only [copy, nodeAt, found, Option.map_some, bind, Option.bind, if_neg derived, retained]
    rfl

/-! ## Changes -/

/-- What a variant refers to has changed, and the roots are as they were. -/
def Changes (store : Store) (roots used : List Address) (result : Changed) : Prop :=
  ∃ later other outcome, result = some (later, other, outcome) ∧ Good later (other :: roots) ∧ Kept store later roots used

variable {result : Changed}

theorem Changes.after {later : Store} (kept : Kept store later roots used) (changes : Changes later roots used result) :
    Changes store roots used result := by
  obtain ⟨last, other, outcome, done, good, rest⟩ := changes
  exact ⟨last, other, outcome, done, good, kept.trans rest⟩

theorem Changes.more {also : List Address} (changes : Changes store roots used result) (subset : used ⊆ also) :
    Changes store roots also result := by
  obtain ⟨last, other, outcome, done, good, kept⟩ := changes
  exact ⟨last, other, outcome, done, good, kept.more subset⟩

theorem refill_eq (found : look store address = some ⟨1, node⟩) (entries : List (Key × Address)) :
    refill store address entries = some (store.set address (some ⟨1, { node with container := some entries }⟩)) := by
  simp only [refill, nodeAt, found, Option.map_some, bind, Option.bind, write]

theorem refill_good (taken given : List Address) (good : Good store (taken ++ address :: roots))
    (found : look store address = some ⟨1, node⟩) {kind : Kind} (known : kindOf node.type = some kind)
    (balance : ∀ other, (entries.map Prod.snd).count other + given.count other ≤ node.kids.count other + taken.count other)
    :
    ∃ later, refill store address entries = some later ∧ Good later (given ++ address :: roots) ∧ Kept store later roots [] ∧
      look later address = some ⟨1, { node with container := some entries }⟩ := by
  obtain ⟨later, kept⟩ := good.write found rfl { node with container := some entries } balance (fun _ _ => ⟨kind, known⟩)
  exact ⟨_, refill_eq found entries, later, kept, by rw [look_set (look_lt found), if_pos rfl]⟩

/-! ### Insert and Append -/

theorem init_good (good : Good store (address :: roots)) (found : look store address = some ⟨1, node⟩) (kind : Kind) :
    ∃ later other, init store address kind = some later ∧ Good later (address :: roots) ∧ Kept store later roots [] ∧
      look later address = some ⟨1, other⟩ ∧ kindOf other.type = some kind := by
  by_cases typed : node.type = kind.type
  · refine ⟨store, node, ?_, good, Kept.refl store roots [], found, ?_⟩
    · simp only [init, nodeAt, found, Option.map_some, bind, Option.bind, if_pos typed]
      rfl
    · rw [typed, kindOf_type]
  · have fair : ∀ other, (Node.filled kind []).kids.count other + ([] : List Address).count other ≤
        node.kids.count other + ([] : List Address).count other := by
      intro other
      simp [Node.kids, Node.filled]
    have typedNow : kindOf (Node.filled kind []).type = some kind := kindOf_type kind
    obtain ⟨later, kept⟩ := good.write found rfl (.filled kind []) fair (fun _ _ => ⟨kind, typedNow⟩)
    refine ⟨_, .filled kind [], ?_, later, kept, ?_, typedNow⟩
    · simp only [init, nodeAt, found, Option.map_some, bind, Option.bind, if_neg typed, write]
    · rw [look_set (look_lt found), if_pos rfl]

theorem store_entry_good (good : Good store (address :: roots)) (found : look store address = some ⟨1, node⟩)
    {kind : Kind} (known : kindOf node.type = some kind) (opened : node.container = some entries)
    (held : Held store roots source used) (key : Key) :
    ∃ later, store_entry kind key source entries store address = some later ∧ Good later (address :: roots) ∧
      Kept store later roots used := by
  have kids : node.kids = entries.map Prod.snd := by
    rw [Node.kids, opened]
    rfl
  have alone := (good.single (counter_eq found)).1
  have unused : address ∉ used := by
    cases held with
    | root member => exact fun same => alone (List.mem_singleton.mp same ▸ member)
    | kid => simp
  cases present : (if kind = .list then none else find key entries) with
  | none =>
    obtain ⟨copied, child, isCopy, more, kept⟩ := copy_held good (List.subset_cons_self _ _) held
    have still : look copied address = some ⟨1, node⟩ := by
      rw [kept.alone address List.mem_cons_self (counter_eq found) unused]
      exact found
    obtain ⟨later, refilled, last, written, -⟩ := refill_good [child] [] more still known (fun other => by
      rw [kids]
      simpa using count_place kind key child other entries)
    refine ⟨later, ?_, last, (kept.fewer (List.subset_cons_self _ _)).trans (written.more (by simp))⟩
    simp only [store_entry, present, isCopy, bind, Option.bind, refilled]
  | some old =>
    have found_old : find key entries = some old := by
      by_cases list : kind = .list
      · rw [if_pos list] at present
        cases present
      · rw [if_neg list] at present
        exact present
    obtain ⟨retained, isRetained, more, kept⟩ := retain_held good (List.subset_cons_self _ _) held
    have still : look retained address = some ⟨1, node⟩ := by
      rw [kept.alone address List.mem_cons_self (counter_eq found) unused]
      exact found
    obtain ⟨refilled, isRefilled, both, written, -⟩ := refill_good [source] [old] more still known (fun other => by
      rw [kids]
      exact count_replace found_old other)
    obtain ⟨later, dropped, last, keptBoth⟩ := both.drop
    refine ⟨later, ?_, last, ?_⟩
    · simp only [store_entry, present, isRetained, bind, Option.bind, isRefilled, dropped]
    · exact ((kept.fewer (List.subset_cons_self _ _)).trans (written.more (by simp))).trans
        ((keptBoth.fewer (List.subset_cons_self _ _)).more (by simp))

theorem insert_changes (good : Good store (address :: roots)) (held : Held store roots source used) (kind : Kind)
    (key : Key) : Changes store roots used (VariantHeap.insert kind key source store address) := by
  obtain ⟨own, mine, node, isVal, good, kept, atVal, -⟩ := good.val
  have held := held.kept kept
  refine Changes.after (kept.more (by simp)) ?_
  have reads : nodeAt own mine = some node := by rw [nodeAt, atVal]; rfl
  by_cases writable : node.access ≠ .readWrite
  · refine ⟨own, mine, .error (refused kind), ?_, good, Kept.refl own roots used⟩
    simp only [VariantHeap.insert, isVal, bind, Option.bind, reads, if_pos writable]
    rfl
  · obtain ⟨ready, typed, isInit, good, kept, atInit, known⟩ := init_good good atVal kind
    have held := held.kept kept
    refine Changes.after (kept.more (by simp)) ?_
    obtain ⟨opened, result, entries, isOpened, good, kept, atOpened, same⟩ := good.open_alone atInit rfl known
    have held := held.kept kept
    refine Changes.after (kept.more (by simp)) ?_
    cases result with
    | error raised =>
      refine ⟨opened, mine, .error raised, ?_, good, Kept.refl opened roots used⟩
      simp only [VariantHeap.insert, isVal, bind, Option.bind, reads, if_neg writable, isInit, isOpened]
      rfl
    | ok list =>
      have equal := same list rfl
      subst equal
      obtain ⟨later, stored, good, kept⟩ := store_entry_good good atOpened known rfl held key
      refine ⟨later, mine, .ok (), ?_, good, kept⟩
      simp only [VariantHeap.insert, isVal, bind, Option.bind, reads, if_neg writable, isInit, isOpened, stored]
      rfl

/-! ### Remove -/

theorem remove_key_changes (good : Good store (address :: roots)) (found : look store address = some ⟨1, node⟩)
    {kind : Kind} (known : kindOf node.type = some kind) (key : Key) :
    Changes store roots [] (remove_key kind key store address) := by
  obtain ⟨opened, result, entries, isOpened, good, kept, atOpened, same⟩ := good.open_alone found rfl known
  refine Changes.after kept ?_
  cases result with
  | error raised =>
    refine ⟨opened, address, .error raised, ?_, good, Kept.refl opened roots []⟩
    simp only [remove_key, isOpened, bind, Option.bind]
    rfl
  | ok list =>
    have equal := same list rfl
    subst equal
    cases present : find key list with
    | none =>
      refine ⟨opened, address, .ok (), ?_, good, Kept.refl opened roots []⟩
      simp only [remove_key, isOpened, bind, Option.bind, present]
      rfl
    | some old =>
      obtain ⟨refilled, isRefilled, both, written, -⟩ := refill_good [] [old] good atOpened known (fun other => by
        simpa [Node.kids] using count_erase present other)
      obtain ⟨later, dropped, last, keptBoth⟩ := both.drop
      refine ⟨later, address, .ok (), ?_, last, written.trans (keptBoth.fewer (List.subset_cons_self _ _))⟩
      simp only [remove_key, isOpened, bind, Option.bind, present, isRefilled, dropped]
      rfl

theorem remove_name_changes (good : Good store (address :: roots)) (name : Bytes) :
    Changes store roots [] (remove_name name store address) := by
  obtain ⟨own, mine, node, isVal, good, kept, atVal, -⟩ := good.val
  refine Changes.after kept ?_
  have reads : nodeAt own mine = some node := by rw [nodeAt, atVal]; rfl
  by_cases map : kindOf node.type = some .map
  · have changes := remove_key_changes good atVal map (.name (c_str name))
    simp only [remove_name, isVal, bind, Option.bind, reads, map]
    exact changes
  · refine ⟨own, mine, .error VariantEdit.notMap, ?_, good, Kept.refl own roots []⟩
    simp only [remove_name, isVal, bind, Option.bind, reads]
    rfl

/-- The index is not one of a list's. -/
def Beyond (index : UInt32) (store : Store) (address : Address) : Prop :=
  ∀ items, Shows store address (.node .list items) → items.length ≤ index.toNat

theorem remove_index_changes (good : Good store (address :: roots)) {index : UInt32}
    (beyond : Beyond index store address) : Changes store roots [] (remove_index index store address) := by
  obtain ⟨tree, shows⟩ := good.shows address List.mem_cons_self
  obtain ⟨own, mine, node, isVal, good, kept, atVal, same⟩ := good.val
  refine Changes.after kept ?_
  have reads : nodeAt own mine = some node := by rw [nodeAt, atVal]; rfl
  cases known : kindOf node.type with
  | none =>
    refine ⟨own, mine, .error VariantEdit.notListIndex, ?_, good, Kept.refl own roots []⟩
    simp only [remove_index, isVal, bind, Option.bind, reads, known]
    rfl
  | some kind =>
    cases kind with
    | map =>
      refine ⟨own, mine, .error VariantEdit.notListIndex, ?_, good, Kept.refl own roots []⟩
      simp only [remove_index, isVal, bind, Option.bind, reads, known]
      rfl
    | index =>
      have changes := remove_key_changes good atVal known (.id index)
      simp only [remove_index, isVal, bind, Option.bind, reads, known]
      exact changes
    | list =>
      obtain ⟨opened, result, entries, isOpened, good, kept, -, agrees⟩ := good.open_alone atVal rfl known
      refine Changes.after kept ?_
      cases result with
      | error raised =>
        refine ⟨opened, mine, .error raised, ?_, good, Kept.refl opened roots []⟩
        simp only [remove_index, isVal, bind, Option.bind, reads, known, isOpened]
        rfl
      | ok found =>
        obtain ⟨items, rfl, keys⟩ := (same tree shows).entries atVal known isOpened
        have outside : found.length ≤ index.toNat := by
          have sizes := congrArg List.length keys
          simp only [List.length_map] at sizes
          rw [sizes]
          exact beyond items shows
        refine ⟨opened, mine, .error VariantEdit.outOfBound, ?_, good, Kept.refl opened roots []⟩
        simp only [remove_index, isVal, bind, Option.bind, reads, known, isOpened, if_pos outside]
        rfl

/-! ### Other representations -/

theorem assign_changes (good : Good store (address :: roots)) (held : Held store roots source used) :
    Changes store roots used (VariantHeap.assign source store address) := by
  obtain ⟨cell, found⟩ := good.there List.mem_cons_self
  by_cases writable : cell.content.access ≠ .readWrite
  · refine ⟨store, address, .error { line := "variant access violation; Assign" }, ?_, good, Kept.refl store roots used⟩
    simp only [VariantHeap.assign, nodeAt, found, Option.map_some, bind, Option.bind, if_pos writable]
    rfl
  · obtain ⟨freed, dropped, rest, kept⟩ := good.drop
    obtain ⟨later, child, copied, more, keptMore⟩ := copy_held rest (List.Subset.refl roots) (held.kept kept)
    refine ⟨later, child, .ok (), ?_, more, (kept.more (by simp)).trans keptMore⟩
    simp only [VariantHeap.assign, nodeAt, found, Option.map_some, bind, Option.bind, if_neg writable, dropped, copied]
    rfl

theorem clear_changes (good : Good store (address :: roots)) : Changes store roots [] (clear store address) := by
  obtain ⟨freed, dropped, rest, kept⟩ := good.drop
  obtain ⟨more, keptMore⟩ := rest.alloc_raw .readWrite ⟨VAR_TYPE_EMPTY, []⟩
  refine ⟨_, _, .ok (), ?_, more, kept.trans keptMore⟩
  simp only [clear, dropped, bind, Option.bind]
  rfl

theorem unfreeze_changes (good : Good store (address :: roots)) :
    Changes store roots [] (VariantHeap.unfreeze store address) := by
  obtain ⟨own, mine, node, isVal, good, kept, atVal, -⟩ := good.val
  refine Changes.after kept ?_
  have reads : nodeAt own mine = some node := by rw [nodeAt, atVal]; rfl
  by_cases writable : node.access = .readWrite
  · refine ⟨own, mine, .ok (), ?_, good, Kept.refl own roots []⟩
    simp only [VariantHeap.unfreeze, isVal, bind, Option.bind, reads, if_pos writable]
    rfl
  · obtain ⟨tree, shows⟩ := good.shows mine List.mem_cons_self
    obtain ⟨cloned, other, copy, isClone, both, keptBoth, -⟩ := good.clone shows
    obtain ⟨later, dropped, last, keptLast⟩ := (both.perm (List.Perm.swap mine other roots)).drop
    refine ⟨later, other, .ok (), ?_, last, ?_⟩
    · simp only [VariantHeap.unfreeze, isVal, bind, Option.bind, reads, if_neg writable, isClone, dropped]
      rfl
    · exact (keptBoth.fewer (List.subset_cons_self _ _)).trans (keptLast.fewer (List.subset_cons_self _ _))

/-! ### Freeze -/

/-- The same with roots that may have got a container. -/
def Alters (store : Store) (roots used : List Address) (result : Changed) : Prop :=
  ∃ later other outcome, result = some (later, other, outcome) ∧ Good later (other :: roots) ∧ Spared store later roots used

theorem Changes.alters (changes : Changes store roots used result) : Alters store roots used result := by
  obtain ⟨later, other, outcome, done, good, kept⟩ := changes
  exact ⟨later, other, outcome, done, good, kept.toSpared⟩

theorem Alters.after {later : Store} (spared : Spared store later roots used) (alters : Alters later roots used result) :
    Alters store roots used result := by
  obtain ⟨last, other, outcome, done, good, rest⟩ := alters
  exact ⟨last, other, outcome, done, good, spared.trans rest⟩

theorem Alters.more {also : List Address} (alters : Alters store roots used result) (subset : used ⊆ also) :
    Alters store roots also result := by
  obtain ⟨last, other, outcome, done, good, spared⟩ := alters
  exact ⟨last, other, outcome, done, good, spared.more subset⟩

/-- `MkPayload` reads every payload it opens to its end. -/
inductive Writes (store : Store) : Address → Prop where
  | frozen {address : Address} {node : Node} (there : nodeAt store address = some node) (frozen : node.access ≠ .readWrite) :
      Writes store address
  | plain {address : Address} {node : Node} (there : nodeAt store address = some node) (plain : kindOf node.type = none) :
      Writes store address
  | raw {address : Address} {node : Node} {kind : Kind} (there : nodeAt store address = some node)
      (known : kindOf node.type = some kind) (unopened : node.container = none)
      (whole : (parse kind node.packed.payload).2 = none) : Writes store address
  | opened {address : Address} {node : Node} {entries : List (Key × Address)} (there : nodeAt store address = some node)
      (opened : node.container = some entries) (below : ∀ pair ∈ entries, Writes store pair.2) : Writes store address

/-- A container that is there, or can be made. -/
def Openable (store : Store) (address : Address) : Prop :=
  ∃ cell kind, look store address = some cell ∧ kindOf cell.content.type = some kind ∧
    (cell.content.container = none → (parse kind cell.content.packed.payload).2 = none)

theorem makeAll_some {make : Address → Option (List Address × Except CException Bytes)} {holds : Address → Prop}
    (each : ∀ pair ∈ entries, ∃ node opened result, nodeAt store pair.2 = some node ∧ make pair.2 = some (opened, result) ∧ ∀ address ∈ opened, holds address)
    : ∃ opened result, makeAll make store entries = some (opened, result) ∧ ∀ address ∈ opened, holds address := by
  induction entries with
  | nil => exact ⟨[], .ok [], rfl, by simp⟩
  | cons pair rest ih =>
    obtain ⟨key, child⟩ := pair
    obtain ⟨node, opened, result, there, made, good⟩ := each (key, child) List.mem_cons_self
    obtain ⟨others, more, madeRest, goodRest⟩ := ih (fun other member => each other (List.mem_cons_of_mem _ member))
    cases result with
    | error raised =>
      refine ⟨opened, .error raised, ?_, good⟩
      simp only [makeAll, there, made, bind, Option.bind]
      rfl
    | ok body =>
      refine ⟨opened ++ others, more.map (fun bytes => write_entry (key, ⟨node.type, body⟩) ++ bytes), ?_, ?_⟩
      · simp only [makeAll, there, made, bind, Option.bind, madeRest]
        rfl
      · intro address member
        rcases List.mem_append.mp member with left | right
        · exact good address left
        · exact goodRest address right

theorem makeWith_some (fuel : Nat) : ∀ {address : Address}, Levels store fuel address → Writes store address →
    ∃ opened result, makeWith fuel store address = some (opened, result) ∧
      ∀ other ∈ opened, (other = address ∨ other ∈ edges Node.kids store) ∧ Openable store other := by
  induction fuel with
  | zero =>
    intro address levels
    cases levels
  | succ fuel ih =>
    intro address levels writes
    cases levels with
    | node found below =>
      rename_i cell
      have reads : nodeAt store address = some cell.content := by rw [nodeAt, found]; rfl
      by_cases frozen : cell.content.access ≠ .readWrite
      · refine ⟨[], .ok cell.content.packed.payload, ?_, by simp⟩
        simp only [makeWith, reads, bind, Option.bind, if_pos frozen]
        rfl
      · cases known : kindOf cell.content.type with
        | none =>
          refine ⟨[], .ok cell.content.packed.payload, ?_, by simp⟩
          simp only [makeWith, reads, bind, Option.bind, if_neg frozen, known]
          rfl
        | some kind =>
          cases opened : cell.content.container with
          | none =>
            refine ⟨[address], (load kind cell.content.packed.payload).map (fun entries => entries.flatMap write_entry), ?_, ?_⟩
            · simp only [makeWith, reads, bind, Option.bind, if_neg frozen, known, opened]
              rfl
            · intro other member
              rw [List.mem_singleton.mp member]
              refine ⟨.inl rfl, cell, kind, found, known, fun _ => ?_⟩
              cases writes with
              | frozen there isFrozen =>
                cases reads.symm.trans there
                exact absurd isFrozen frozen
              | plain there plain =>
                cases reads.symm.trans there
                cases known.symm.trans plain
              | raw there also unopened whole =>
                cases reads.symm.trans there
                cases known.symm.trans also
                exact whole
              | opened there also =>
                cases reads.symm.trans there
                cases opened.symm.trans also
          | some entries =>
            have kid : ∀ pair ∈ entries, pair.2 ∈ cell.content.kids := by
              intro pair member
              rw [Node.kids, opened]
              exact List.mem_map.mpr ⟨pair, member, rfl⟩
            have each : ∀ pair ∈ entries, ∃ node targets result, nodeAt store pair.2 = some node ∧
                makeWith fuel store pair.2 = some (targets, result) ∧
                ∀ other ∈ targets, (other = address ∨ other ∈ edges Node.kids store) ∧ Openable store other := by
              intro pair member
              have childLevels := below pair.2 (kid pair member)
              have childWrites : Writes store pair.2 := by
                cases writes with
                | frozen there isFrozen =>
                  cases reads.symm.trans there
                  exact absurd isFrozen frozen
                | plain there plain =>
                  cases reads.symm.trans there
                  cases known.symm.trans plain
                | raw there also unopened whole =>
                  cases reads.symm.trans there
                  cases unopened.symm.trans opened
                | opened there also below =>
                  cases reads.symm.trans there
                  cases opened.symm.trans also
                  exact below pair member
              obtain ⟨targets, result, made, good⟩ := ih childLevels childWrites
              obtain ⟨child, atChild⟩ : ∃ child, look store pair.2 = some child := by
                cases childLevels with
                | node found => exact ⟨_, found⟩
              refine ⟨child.content, targets, result, by rw [nodeAt, atChild]; rfl, made, ?_⟩
              intro other among
              obtain ⟨where_, openable⟩ := good other among
              refine ⟨.inr ?_, openable⟩
              rcases where_ with rfl | edge
              · exact mem_edges found (kid pair member)
              · exact edge
            obtain ⟨targets, result, made, good⟩ := makeAll_some each
            refine ⟨targets, result, ?_, good⟩
            simp only [makeWith, reads, bind, Option.bind, if_neg frozen, known, opened]
            exact made

theorem open_all_good (targets : List Address) : ∀ {store : Store}, Good store roots →
    (∀ address ∈ targets, Openable store address) →
    ∃ later, targets.foldlM open_known store = some later ∧ Good later roots ∧
      (∀ root ∈ roots, ∀ tree, Shows store root tree → Shows later root tree) ∧
      ∀ other seen, other ∉ targets → look store other = some seen → look later other = some seen := by
  induction targets with
  | nil =>
    intro store good _
    exact ⟨store, rfl, good, fun _ _ _ shows => shows, fun _ _ _ there => there⟩
  | cons address rest ih =>
    intro store good each
    obtain ⟨cell, kind, found, known, whole⟩ := each address List.mem_cons_self
    obtain ⟨opened, entries, isOpened, good, kept, made, others⟩ := good.open_whole found known whole
    have still : ∀ other ∈ rest, Openable opened other := by
      intro other member
      by_cases same : other = address
      · subst same
        exact ⟨_, kind, made, known, fun impossible => by cases impossible⟩
      · obtain ⟨seen, otherKind, there, otherKnown, otherWhole⟩ := each other (List.mem_cons_of_mem _ member)
        exact ⟨seen, otherKind, others other seen same there, otherKnown, otherWhole⟩
    obtain ⟨later, folded, good, shows, restOthers⟩ := ih good still
    refine ⟨later, ?_, good, fun root member tree seen => shows root member tree (kept.shows root member tree seen), ?_⟩
    · simp only [List.foldlM_cons, open_known, nodeAt, found, Option.map_some, bind, Option.bind, known, isOpened]
      exact folded
    · intro other seen notTarget there
      refine restOthers other seen (fun member => notTarget (List.mem_cons_of_mem _ member)) ?_
      exact others other seen (fun same => notTarget (by simp [same])) there

theorem freeze_alters (good : Good store (address :: roots))
    (writes : ∀ own mine, val store address = some (own, mine) → Writes own mine) :
    Alters store roots [] (freeze store address) := by
  obtain ⟨own, mine, node, isVal, good, kept, atVal, -⟩ := good.val
  have writes := writes own mine isVal
  refine Alters.after kept.toSpared ?_
  have reads : nodeAt own mine = some node := by rw [nodeAt, atVal]; rfl
  by_cases frozen : node.access = .readOnly
  · refine ⟨own, mine, .ok (), ?_, good, (Kept.refl own roots []).toSpared⟩
    simp only [freeze, isVal, bind, Option.bind, reads, if_pos frozen]
    rfl
  · obtain ⟨tree, shows⟩ := good.shows mine List.mem_cons_self
    obtain ⟨targets, result, made, targeted⟩ := makeWith_some own.length shows.levels writes
    obtain ⟨opened, isOpened, goodOpened, showsOpened, others⟩ := open_all_good targets good (fun other member => (targeted other member).2)
    have spared : Spared own opened roots [] := by
      refine ⟨fun root member => showsOpened root (List.mem_cons_of_mem _ member), ?_⟩
      intro root member one _
      obtain ⟨differs, unreferred⟩ := good.apart member one
      obtain ⟨cell, found⟩ := good.there (List.mem_cons_of_mem _ member)
      rw [found]
      refine others root cell ?_ found
      intro target
      rcases (targeted root target).1 with same | edge
      · exact differs same
      · exact unreferred edge
    refine Alters.after spared ?_
    cases result with
    | error raised =>
      refine ⟨opened, mine, .error raised, ?_, goodOpened, (Kept.refl opened roots []).toSpared⟩
      simp only [freeze, isVal, bind, Option.bind, reads, if_neg frozen, made, isOpened]
      rfl
    | ok body =>
      obtain ⟨freed, dropped, rest, keptFreed⟩ := goodOpened.drop
      cases decoded : from_packet ⟨to_packet ⟨node.type, body⟩, 0⟩ with
      | error raised =>
        obtain ⟨more, keptMore⟩ := rest.alloc_raw .readWrite ⟨VAR_TYPE_EMPTY, []⟩
        refine ⟨_, _, .error raised, ?_, more, (keptFreed.trans keptMore).toSpared⟩
        simp only [freeze, isVal, bind, Option.bind, reads, if_neg frozen, made, isOpened, dropped, decoded]
        rfl
      | ok pair =>
        obtain ⟨packed, after⟩ := pair
        obtain ⟨more, keptMore⟩ := rest.alloc_raw .readOnly packed
        refine ⟨_, _, .ok (), ?_, more, (keptFreed.trans keptMore).toSpared⟩
        simp only [freeze, isVal, bind, Option.bind, reads, if_neg frozen, made, isOpened, dropped, decoded]
        rfl

/-! ### Merge -/

theorem insert_all_changes (member : source ∈ roots) (kind : Kind) (entries : List (Key × Address)) :
    ∀ {store : Store} {address : Address}, Good store (address :: roots) →
    nodeAt store source = some node → (∀ pair ∈ entries, pair.2 ∈ node.kids) →
    Changes store roots [] (insert_all kind entries store address) := by
  induction entries with
  | nil =>
    intro store address good _ _
    exact ⟨store, address, .ok (), rfl, good, Kept.refl store roots []⟩
  | cons pair rest ih =>
    intro store address good there kids
    obtain ⟨key, child⟩ := pair
    have held : Held store roots child [] := .kid member there (kids (key, child) List.mem_cons_self)
    obtain ⟨later, other, outcome, inserted, good, kept⟩ := insert_changes good held kind key.stored
    cases outcome with
    | error raised =>
      refine ⟨later, other, .error raised, ?_, good, kept⟩
      simp only [insert_all, inserted, bind, Option.bind]
      rfl
    | ok done =>
      have still : nodeAt later source = some node := (kept.holds source member (by simp)).trans there
      have changes := ih good still (fun pair among => kids pair (List.mem_cons_of_mem _ among))
      simp only [insert_all, inserted, bind, Option.bind]
      exact changes.after kept

/-- The container of what is merged can be made. -/
def Mergeable (source : Address) (store : Store) (address : Address) : Prop :=
  ∀ node other kind, nodeAt store address = some node → nodeAt store source = some other → kindOf other.type = some kind →
    node.type = kind.type → other.container = none → (parse kind other.packed.payload).2 = none

theorem merge_alters (good : Good store (address :: roots)) (member : source ∈ roots)
    (mergeable : Mergeable source store address) : Alters store roots [source] (merge source store address) := by
  obtain ⟨cell, found⟩ := good.there List.mem_cons_self
  obtain ⟨from_, atSource⟩ := good.there (List.mem_cons_of_mem _ member)
  have reads : nodeAt store address = some cell.content := by rw [nodeAt, found]; rfl
  have readsSource : nodeAt store source = some from_.content := by rw [nodeAt, atSource]; rfl
  by_cases empty : cell.content.type = VAR_TYPE_EMPTY
  · have changes := assign_changes good (.root member)
    simp only [merge, reads, readsSource, bind, Option.bind, if_pos empty]
    exact changes.alters
  · cases known : kindOf from_.content.type with
    | none =>
      refine ⟨store, address, .error { line := "Variant could not be merged, type mismatch" }, ?_, good,
        (Kept.refl store roots _).toSpared⟩
      simp only [merge, reads, readsSource, bind, Option.bind, if_neg empty, known]
      rfl
    | some kind =>
      by_cases differs : cell.content.type ≠ kind.type
      · refine ⟨store, address, .error { line := "Variant could not be merged, type mismatch" }, ?_, good,
          (Kept.refl store roots _).toSpared⟩
        simp only [merge, reads, readsSource, bind, Option.bind, if_neg empty, known, if_pos differs]
        rfl
      · have whole := mergeable _ _ kind reads readsSource known (by simpa using differs)
        obtain ⟨opened, entries, isOpened, good, kept, made, -⟩ := good.open_whole atSource known whole
        have there : nodeAt opened source = some { from_.content with container := some entries } := by
          rw [nodeAt, made]
          rfl
        have changes := insert_all_changes member kind entries good there (fun pair among => List.mem_map.mpr ⟨pair, among, rfl⟩)
        simp only [merge, reads, readsSource, bind, Option.bind, if_neg empty, known, if_neg differs, isOpened]
        exact Alters.after (kept.toSpared.fewer (List.subset_cons_self _ _)) (changes.more (by simp)).alters

end TaskExplorer.HeapEdits
