import Mathlib

/-!
# Cells with reference counts

A heap of cells that refer to each other, each with a counter. `Counted` says
that no counter is below the number of references there are: those in cells and
those held by `roots` outside. It is all that is needed to free without leaving a
reference behind, and to know the only owner of a cell whose counter is one.
-/

namespace TaskExplorer.RefHeap

abbrev Address := Nat

structure Cell (α : Type) where
  count : Nat
  content : α
deriving DecidableEq, Repr

/-- A freed cell leaves its place empty. -/
abbrev Heap (α : Type) := List (Option (Cell α))

section Heaps
variable {α : Type}

def look (heap : Heap α) (address : Address) : Option (Cell α) := (heap[address]?).join

def counter (heap : Heap α) (address : Address) : Nat := ((look heap address).map Cell.count).getD 0

variable {heap : Heap α} {address : Address}

theorem look_lt {cell : Cell α} (found : look heap address = some cell) : address < heap.length := by
  by_contra outside
  rw [look, List.getElem?_eq_none (Nat.not_lt.mp outside)] at found
  cases found

theorem set_look {cell : Cell α} (found : look heap address = some cell) : heap.set address (some cell) = heap := by
  have inside := look_lt found
  have same : heap[address] = some cell := by
    rw [look, List.getElem?_eq_getElem inside] at found
    exact found
  rw [← same, List.set_getElem_self]

theorem look_set {slot : Option (Cell α)} (inside : address < heap.length) (other : Address) :
    look (heap.set address slot) other = if other = address then slot else look heap other := by
  unfold look
  by_cases same : other = address
  · subst same
    rw [if_pos rfl, List.getElem?_set_self inside]
    rfl
  · rw [if_neg same, List.getElem?_set_ne (Ne.symm same)]

theorem look_append_left {more : Heap α} {cell : Cell α} (found : look heap address = some cell) :
    look (heap ++ more) address = some cell := by
  rw [look, List.getElem?_append_left (look_lt found)]
  exact found

theorem look_alloc (heap : Heap α) (cell : Cell α) : look (heap ++ [some cell]) heap.length = some cell := by
  simp [look]

theorem counter_eq {cell : Cell α} (found : look heap address = some cell) : counter heap address = cell.count := by
  rw [counter, found]
  rfl

theorem counter_set {slot : Option (Cell α)} (inside : address < heap.length) (other : Address) :
    counter (heap.set address slot) other = if other = address then (slot.map Cell.count).getD 0 else counter heap other := by
  rw [counter, look_set inside]
  split_ifs <;> rfl

end Heaps

section References
variable {α : Type} (kids : α → List Address)

def slotKids (slot : Option (Cell α)) : List Address := (slot.map (fun cell => kids cell.content)).getD []

def edges (heap : Heap α) : List Address := heap.flatMap (slotKids kids)

/-- No reference goes uncounted. -/
def Counted (heap : Heap α) (roots : List Address) : Prop :=
  ∀ address, (edges kids heap).count address + roots.count address ≤ counter heap address

/-- Drops the references one by one; the last one to a cell frees it and drops
    those it holds. Nothing is returned if a cell is not there. -/
def release : Nat → Heap α → List Address → Option (Heap α)
  | _, heap, [] => some heap
  | 0, _, _ :: _ => none
  | fuel + 1, heap, address :: rest =>
    match look heap address with
    | none => none
    | some cell =>
      if cell.count = 1 then release fuel (heap.set address none) (kids cell.content ++ rest)
      else release fuel (heap.set address (some { cell with count := cell.count - 1 })) rest

/-- What is left has its content. -/
def Thinned (before after : Heap α) : Prop :=
  ∀ address, look after address = none ∨
    ∃ cell count, look before address = some cell ∧ look after address = some { cell with count := count }

variable {kids}

theorem edges_append (heap more : Heap α) : edges kids (heap ++ more) = edges kids heap ++ edges kids more := List.flatMap_append

variable {heap : Heap α} {address : Address} {cell : Cell α} {roots : List Address}

theorem count_edges_set (kids : α → List Address) (inside : address < heap.length) (slot : Option (Cell α))
    (other : Address) :
    (edges kids (heap.set address slot)).count other + (slotKids kids (look heap address)).count other =
      (edges kids heap).count other + (slotKids kids slot).count other := by
  induction heap generalizing address with
  | nil => simp at inside
  | cons head tail ih =>
    cases address with
    | zero =>
      simp only [List.set_cons_zero, edges, List.flatMap_cons, List.count_append, look, List.getElem?_cons_zero, Option.join_some]
      omega
    | succ address =>
      have later := ih (Nat.lt_of_succ_lt_succ inside)
      simp only [List.set_cons_succ, edges, List.flatMap_cons, List.count_append, look, List.getElem?_cons_succ] at later ⊢
      omega

theorem mem_edges {kid : Address} (found : look heap address = some cell) (member : kid ∈ kids cell.content) :
    kid ∈ edges kids heap := by
  have slot : some cell ∈ heap := by
    rw [look, Option.join_eq_some_iff] at found
    exact List.mem_of_getElem? found
  exact List.mem_flatMap.mpr ⟨some cell, slot, member⟩

/-! ## What counting gives -/

theorem counted_root (counted : Counted kids heap roots) (member : address ∈ roots) :
    ∃ cell, look heap address = some cell := by
  have positive := List.count_pos_iff.mpr member
  have bound := counted address
  cases found : look heap address with
  | some cell => exact ⟨cell, rfl⟩
  | none =>
    rw [counter, found] at bound
    simp only [Option.map_none, Option.getD_none] at bound
    omega

theorem counted_kid (counted : Counted kids heap roots) {kid : Address} (found : look heap address = some cell)
    (member : kid ∈ kids cell.content) : ∃ cell, look heap kid = some cell := by
  have positive := List.count_pos_iff.mpr (mem_edges found member)
  have bound := counted kid
  cases seen : look heap kid with
  | some cell => exact ⟨cell, rfl⟩
  | none =>
    rw [counter, seen] at bound
    simp only [Option.map_none, Option.getD_none] at bound
    omega

theorem counted_unique (counted : Counted kids heap (address :: roots)) (found : look heap address = some cell)
    (one : cell.count = 1) : address ∉ roots ∧ address ∉ edges kids heap := by
  have bound := counted address
  rw [counter_eq found, one, List.count_cons_self] at bound
  constructor
  · exact List.count_eq_zero.mp (by omega)
  · exact List.count_eq_zero.mp (by omega)

theorem counted_perm {others : List Address} (counted : Counted kids heap roots) (same : roots.Perm others) :
    Counted kids heap others := by
  intro address
  rw [← same.count_eq]
  exact counted address

/-! ## How the operations keep it -/

theorem counted_alloc {content : α} (counted : Counted kids heap (kids content ++ roots)) :
    Counted kids (heap ++ [some ⟨1, content⟩]) (heap.length :: roots) := by
  intro address
  have bound := counted address
  rw [List.count_append] at bound
  have last : edges kids [some ⟨1, content⟩] = kids content := by simp [edges, slotKids]
  rw [edges_append, last, List.count_append]
  by_cases new : address = heap.length
  · subst new
    have absent : counter heap heap.length = 0 := by simp [counter, look]
    rw [counter_eq (look_alloc heap ⟨1, content⟩), List.count_cons_self]
    simp only
    omega
  · have same : counter (heap ++ [some ⟨1, content⟩]) address = counter heap address := by
      unfold counter look
      rcases Nat.lt_or_gt_of_ne new with before | behind
      · rw [List.getElem?_append_left before]
      · rw [List.getElem?_eq_none (by simp; omega), List.getElem?_eq_none (by omega)]
    rw [same, List.count_cons_of_ne (Ne.symm new)]
    omega

theorem counted_retain (counted : Counted kids heap roots) (found : look heap address = some cell) :
    Counted kids (heap.set address (some { cell with count := cell.count + 1 })) (address :: roots) := by
  have inside := look_lt found
  intro other
  have bound := counted other
  have kept := count_edges_set kids inside (some { cell with count := cell.count + 1 }) other
  rw [found] at kept
  simp only [slotKids, Option.map_some, Option.getD_some] at kept
  rw [counter_set inside]
  by_cases same : other = address
  · subst same
    rw [counter_eq found] at bound
    simp only [if_true, Option.map_some, Option.getD_some, List.count_cons_self]
    omega
  · rw [if_neg same, List.count_cons_of_ne (Ne.symm same)]
    omega

theorem counted_write {taken given : List Address} {content : α} (counted : Counted kids heap (taken ++ roots))
    (found : look heap address = some cell)
    (balance : ∀ other, (kids content).count other + given.count other ≤ (kids cell.content).count other + taken.count other)
    : Counted kids (heap.set address (some { cell with content := content })) (given ++ roots) := by
  have inside := look_lt found
  intro other
  have bound := counted other
  have fair := balance other
  have kept := count_edges_set kids inside (some { cell with content := content }) other
  rw [found] at kept
  simp only [slotKids, Option.map_some, Option.getD_some] at kept
  rw [List.count_append] at bound ⊢
  rw [counter_set inside]
  by_cases same : other = address
  · subst same
    rw [counter_eq found] at bound
    simp only [if_true, Option.map_some, Option.getD_some]
    omega
  · rw [if_neg same]
    omega

theorem thinned_refl (heap : Heap α) : Thinned heap heap := by
  intro address
  cases found : look heap address with
  | none => exact .inl rfl
  | some cell => exact .inr ⟨cell, cell.count, rfl, rfl⟩

theorem thinned_trans {first second third : Heap α} (left : Thinned first second) (right : Thinned second third) :
    Thinned first third := by
  intro address
  rcases right address with gone | ⟨cell, count, seen, kept⟩
  · exact .inl gone
  · rcases left address with gone | ⟨older, before, found, same⟩
    · rw [gone] at seen
      cases seen
    · rw [same] at seen
      cases seen
      exact .inr ⟨older, count, found, kept⟩

private theorem thinned_set (found : look heap address = some cell) {slot : Option (Cell α)}
    (thinner : slot = none ∨ ∃ count, slot = some { cell with count := count }) :
    Thinned heap (heap.set address slot) := by
  intro other
  rw [look_set (look_lt found)]
  by_cases same : other = address
  · rw [if_pos same, same, found]
    rcases thinner with rfl | ⟨count, rfl⟩
    · exact .inl rfl
    · exact .inr ⟨cell, count, rfl, rfl⟩
  · rw [if_neg same]
    exact thinned_refl heap other

theorem counted_free (counted : Counted kids heap (address :: roots)) (found : look heap address = some cell)
    (one : cell.count = 1) : Counted kids (heap.set address none) (kids cell.content ++ roots) := by
  have inside := look_lt found
  intro other
  have bound := counted other
  have kept := count_edges_set kids inside none other
  rw [found] at kept
  simp only [slotKids, Option.map_some, Option.getD_some, Option.map_none, Option.getD_none, List.count_nil] at kept
  rw [List.count_append, counter_set inside]
  by_cases same : other = address
  · subst same
    rw [counter_eq found, one, List.count_cons_self] at bound
    simp only [if_true, Option.map_none, Option.getD_none]
    omega
  · rw [if_neg same]
    rw [List.count_cons_of_ne (Ne.symm same)] at bound
    omega

theorem counted_drop (counted : Counted kids heap (address :: roots)) (found : look heap address = some cell) :
    Counted kids (heap.set address (some { cell with count := cell.count - 1 })) roots := by
  have inside := look_lt found
  intro other
  have bound := counted other
  have kept := count_edges_set kids inside (some { cell with count := cell.count - 1 }) other
  rw [found] at kept
  simp only [slotKids, Option.map_some, Option.getD_some] at kept
  rw [counter_set inside]
  by_cases same : other = address
  · subst same
    rw [counter_eq found, List.count_cons_self] at bound
    simp only [if_true, Option.map_some, Option.getD_some]
    omega
  · rw [if_neg same]
    rw [List.count_cons_of_ne (Ne.symm same)] at bound
    omega

theorem length_edges_set (kids : α → List Address) (inside : address < heap.length) (slot : Option (Cell α)) :
    (edges kids (heap.set address slot)).length + (slotKids kids (look heap address)).length =
      (edges kids heap).length + (slotKids kids slot).length := by
  induction heap generalizing address with
  | nil => simp at inside
  | cons head tail ih =>
    cases address with
    | zero =>
      simp only [List.set_cons_zero, edges, List.flatMap_cons, List.length_append, look, List.getElem?_cons_zero, Option.join_some]
      omega
    | succ address =>
      have later := ih (Nat.lt_of_succ_lt_succ inside)
      simp only [List.set_cons_succ, edges, List.flatMap_cons, List.length_append, look, List.getElem?_cons_succ] at later ⊢
      omega

theorem release_counted (pending roots : List Address) (counted : Counted kids heap (pending ++ roots)) {fuel : Nat}
    (enough : pending.length + (edges kids heap).length ≤ fuel) :
    ∃ after, release kids fuel heap pending = some after ∧ Counted kids after roots ∧ Thinned heap after ∧
      ∀ other, other ∉ pending → other ∉ edges kids heap → look after other = look heap other := by
  induction fuel generalizing heap pending with
  | zero =>
    cases pending with
    | nil => exact ⟨heap, rfl, counted, thinned_refl heap, fun _ _ _ => rfl⟩
    | cons address rest => simp at enough
  | succ fuel ih =>
    cases pending with
    | nil => exact ⟨heap, rfl, counted, thinned_refl heap, fun _ _ _ => rfl⟩
    | cons address rest =>
      obtain ⟨cell, found⟩ := counted_root counted (show address ∈ address :: rest ++ roots by simp)
      have inside := look_lt found
      by_cases one : cell.count = 1
      · have freed := counted_free counted found one
        rw [List.append_eq, ← List.append_assoc] at freed
        have total := length_edges_set kids inside none
        rw [found] at total
        simp only [slotKids, Option.map_some, Option.map_none, Option.getD_none, Option.getD_some, List.length_nil] at total
        obtain ⟨after, released, later, thinned, others⟩ := ih _ freed (by
          simp only [List.length_append, List.length_cons] at enough ⊢
          omega)
        refine ⟨after, ?_, later, thinned_trans (thinned_set found (.inl rfl)) thinned, ?_⟩
        · simp only [release, found, if_pos one, released]
        · intro other notPending notEdge
          have notKid : other ∉ kids cell.content := fun member => notEdge (mem_edges found member)
          rw [others other]
          · rw [look_set inside, if_neg (fun same => notPending (by simp [same]))]
          · simp only [List.mem_append, not_or]
            exact ⟨notKid, fun member => notPending (List.mem_cons_of_mem _ member)⟩
          · intro member
            have stays := count_edges_set kids inside none other
            have none := List.count_eq_zero.mpr notEdge
            have some := List.count_pos_iff.mpr member
            simp only [slotKids, Option.map_none, Option.getD_none, List.count_nil] at stays
            omega
      · have dropped := counted_drop counted found
        have total := length_edges_set kids inside (some { cell with count := cell.count - 1 })
        rw [found] at total
        simp only [slotKids, Option.map_some, Option.getD_some] at total
        obtain ⟨after, released, later, thinned, others⟩ := ih _ dropped (by
          simp only [List.length_cons] at enough
          omega)
        refine ⟨after, ?_, later, thinned_trans (thinned_set found (.inr ⟨_, rfl⟩)) thinned, ?_⟩
        · simp only [release, found, if_neg one, released]
        · intro other notPending notEdge
          rw [others other]
          · rw [look_set inside, if_neg (fun same => notPending (by simp [same]))]
          · exact fun member => notPending (List.mem_cons_of_mem _ member)
          · intro member
            have stays := count_edges_set kids inside (some { cell with count := cell.count - 1 }) other
            rw [found] at stays
            have none := List.count_eq_zero.mpr notEdge
            have some := List.count_pos_iff.mpr member
            simp only [slotKids, Option.map_some, Option.getD_some] at stays
            omega

end References
end TaskExplorer.RefHeap
