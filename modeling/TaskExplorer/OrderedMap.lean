import Mathlib

/-!
# Ordered maps

Finite maps kept as lists of pairs in the order of their keys, which is the
order an ordered container is walked in. The list functions come first, for
types that hold such a list inside themselves; `OrdMap` carries the order with it.
-/

namespace TaskExplorer.OrderedMap

/-! ## Machine integers as keys -/

instance order_uint8 : LinearOrder UInt8 where
  le_refl := UInt8.le_refl
  le_trans _ _ _ := UInt8.le_trans
  le_antisymm _ _ := UInt8.le_antisymm
  le_total := UInt8.le_total
  lt_iff_le_not_ge a b := by simp [UInt8.lt_iff_toNat_lt, UInt8.le_iff_toNat_le]; omega
  toDecidableLE := inferInstance
  toDecidableEq := inferInstance
  toDecidableLT := inferInstance

instance order_uint16 : LinearOrder UInt16 where
  le_refl := UInt16.le_refl
  le_trans _ _ _ := UInt16.le_trans
  le_antisymm _ _ := UInt16.le_antisymm
  le_total := UInt16.le_total
  lt_iff_le_not_ge a b := by simp [UInt16.lt_iff_toNat_lt, UInt16.le_iff_toNat_le]; omega
  toDecidableLE := inferInstance
  toDecidableEq := inferInstance
  toDecidableLT := inferInstance

instance order_uint32 : LinearOrder UInt32 where
  le_refl := UInt32.le_refl
  le_trans _ _ _ := UInt32.le_trans
  le_antisymm _ _ := UInt32.le_antisymm
  le_total := UInt32.le_total
  lt_iff_le_not_ge a b := by simp [UInt32.lt_iff_toNat_lt, UInt32.le_iff_toNat_le]; omega
  toDecidableLE := inferInstance
  toDecidableEq := inferInstance
  toDecidableLT := inferInstance

instance order_uint64 : LinearOrder UInt64 where
  le_refl := UInt64.le_refl
  le_trans _ _ _ := UInt64.le_trans
  le_antisymm _ _ := UInt64.le_antisymm
  le_total := UInt64.le_total
  lt_iff_le_not_ge a b := by simp [UInt64.lt_iff_toNat_lt, UInt64.le_iff_toNat_le]; omega
  toDecidableLE := inferInstance
  toDecidableEq := inferInstance
  toDecidableLT := inferInstance

/-! ## Lists of pairs -/

section Pairs
variable {K V W : Type} [LinearOrder K]

def Sorted (pairs : List (K × V)) : Prop := pairs.Pairwise (fun left right => left.1 < right.1)

def find (key : K) : List (K × V) → Option V
  | [] => none
  | (other, value) :: rest => if other = key then some value else find key rest

/-- Puts a value under a key, in place of the one it had. -/
def put (key : K) (value : V) : List (K × V) → List (K × V)
  | [] => [(key, value)]
  | (other, old) :: rest =>
    if key < other then (key, value) :: (other, old) :: rest
    else if key = other then (key, value) :: rest
    else (other, old) :: put key value rest

/-- Puts a value under a key that has none; a key that has one keeps it. -/
def add (key : K) (value : V) (pairs : List (K × V)) : List (K × V) :=
  if (find key pairs).isSome then pairs else put key value pairs

def erase (key : K) (pairs : List (K × V)) : List (K × V) := pairs.filter (fun pair => pair.1 ≠ key)

/-- Another value for a key, where it stands. -/
def replace (key : K) (value : V) : List (K × V) → List (K × V)
  | [] => []
  | (other, old) :: rest => if other = key then (key, value) :: rest else (other, old) :: replace key value rest

@[simp] theorem find_nil (key : K) : find key ([] : List (K × V)) = none := rfl

theorem find_put (key sought : K) (value : V) (pairs : List (K × V)) :
    find sought (put key value pairs) = if key = sought then some value else find sought pairs := by
  induction pairs with
  | nil => rfl
  | cons head rest ih =>
    obtain ⟨other, old⟩ := head
    by_cases before : key < other
    · rw [put, if_pos before]
      rfl
    · by_cases same : key = other
      · subst same
        rw [put, if_neg before, if_pos rfl]
        by_cases eq : key = sought <;> simp [find, eq]
      · rw [put, if_neg before, if_neg same]
        by_cases here : other = sought
        · have different : key ≠ sought := fun eq => same (eq.trans here.symm)
          simp [find, here, different]
        · simp [find, here, ih]

theorem find_add (key sought : K) (value : V) (pairs : List (K × V)) :
    find sought (add key value pairs) =
      if key = sought then some ((find key pairs).getD value) else find sought pairs := by
  unfold add
  cases present : find key pairs with
  | none => simp [find_put]
  | some old =>
    by_cases eq : key = sought
    · subst eq; simp [present]
    · simp [eq]

theorem find_erase (key sought : K) (pairs : List (K × V)) :
    find sought (erase key pairs) = if key = sought then none else find sought pairs := by
  induction pairs with
  | nil => simp [erase]
  | cons head rest ih =>
    obtain ⟨other, old⟩ := head
    by_cases gone : other = key
    · subst gone
      have dropped : erase other ((other, old) :: rest) = erase other rest := by simp [erase]
      rw [dropped, ih]
      by_cases eq : other = sought <;> simp [find, eq]
    · have kept : erase key ((other, old) :: rest) = (other, old) :: erase key rest := by simp [erase, gone]
      rw [kept, find, ih, find]
      by_cases here : other = sought
      · have different : key ≠ sought := fun eq => gone (here.trans eq.symm)
        simp [here, different]
      · simp [here]

theorem find_map (key : K) (f : K → V → W) (pairs : List (K × V)) :
    find key (pairs.map (fun pair => (pair.1, f pair.1 pair.2))) = (find key pairs).map (f key) := by
  induction pairs with
  | nil => rfl
  | cons head rest ih =>
    by_cases here : head.1 = key
    · simp [find, here]
    · simp [find, here, ih]

variable {pairs : List (K × V)}

variable {value : V}

theorem find_mem {key : K} (found : find key pairs = some value) : (key, value) ∈ pairs := by
  induction pairs with
  | nil => simp at found
  | cons head rest ih =>
    obtain ⟨other, old⟩ := head
    by_cases here : other = key
    · subst here
      simp only [find, ↓reduceIte, Option.some.injEq] at found
      simp [found]
    · simp only [find, here, ↓reduceIte] at found
      exact List.mem_cons_of_mem _ (ih found)

theorem find_of_mem {key : K} (sorted : Sorted pairs) (member : (key, value) ∈ pairs) :
    find key pairs = some value := by
  induction pairs with
  | nil => simp at member
  | cons head rest ih =>
    obtain ⟨other, old⟩ := head
    obtain ⟨front, behind⟩ := List.pairwise_cons.mp sorted
    rcases List.mem_cons.mp member with here | later
    · cases here
      simp [find]
    · have different : other ≠ key := ne_of_lt (front _ later)
      simp [find, different, ih behind later]

theorem mem_put {key : K} {pair : K × V} (member : pair ∈ put key value pairs) :
    pair = (key, value) ∨ pair ∈ pairs := by
  induction pairs with
  | nil => simpa [put] using member
  | cons head rest ih =>
    obtain ⟨other, old⟩ := head
    rw [put] at member
    split_ifs at member with before same
    · simpa using member
    · rcases List.mem_cons.mp member with here | later
      · exact Or.inl here
      · exact Or.inr (List.mem_cons_of_mem _ later)
    · rcases List.mem_cons.mp member with here | later
      · exact Or.inr (by simp [here])
      · exact (ih later).imp_right (List.mem_cons_of_mem _)

theorem sorted_put {key : K} (sorted : Sorted pairs) : Sorted (put key value pairs) := by
  induction pairs with
  | nil => simp [put, Sorted]
  | cons head rest ih =>
    obtain ⟨other, old⟩ := head
    obtain ⟨front, behind⟩ := List.pairwise_cons.mp sorted
    rw [put]
    split_ifs with before same
    · refine List.pairwise_cons.mpr ⟨?_, sorted⟩
      intro pair member
      rcases List.mem_cons.mp member with rfl | later
      · exact before
      · exact before.trans (front pair later)
    · subst same
      exact List.pairwise_cons.mpr ⟨front, behind⟩
    · refine List.pairwise_cons.mpr ⟨?_, ih behind⟩
      intro pair member
      rcases mem_put member with rfl | later
      · exact lt_of_le_of_ne (not_lt.mp before) (Ne.symm same)
      · exact front pair later

theorem sorted_add {key : K} (sorted : Sorted pairs) : Sorted (add key value pairs) := by
  unfold add
  split_ifs
  · exact sorted
  · exact sorted_put sorted

theorem sorted_filter {keep : K × V → Bool} (sorted : Sorted pairs) :
    Sorted (pairs.filter keep) := List.Pairwise.filter keep sorted

theorem sorted_map {f : K → V → W} (sorted : Sorted pairs) :
    Sorted (pairs.map (fun pair => (pair.1, f pair.1 pair.2))) := by
  unfold Sorted at sorted ⊢
  rw [List.pairwise_map]
  exact sorted

theorem find_filter {keep : K × V → Bool} (sorted : Sorted pairs) (key : K) :
    find key (pairs.filter keep) = (find key pairs).filter (fun value => keep (key, value)) := by
  induction pairs with
  | nil => rfl
  | cons head rest ih =>
    obtain ⟨other, old⟩ := head
    obtain ⟨front, behind⟩ := List.pairwise_cons.mp sorted
    by_cases here : other = key
    · subst here
      have absent : find other rest = none := by
        cases present : find other rest with
        | none => rfl
        | some value => exact absurd (front _ (find_mem present)) (lt_irrefl _)
      cases kept : keep (other, old) with
      | true => simp [find, kept, Option.filter]
      | false => simpa [find, kept, absent, Option.filter] using ih behind
    · cases kept : keep (other, old) with
      | true => simpa [find, kept, here] using ih behind
      | false => simpa [find, kept, here] using ih behind

theorem sorted_ext {left right : List (K × V)} (leftSorted : Sorted left) (rightSorted : Sorted right)
    (same : ∀ key, find key left = find key right) : left = right := by
  have distinct {pairs : List (K × V)} (sorted : Sorted pairs) : pairs.Nodup :=
    sorted.imp (fun less eq => by simp [eq] at less)
  have members (pair : K × V) : pair ∈ left ↔ pair ∈ right :=
    ⟨fun member => find_mem ((same pair.1) ▸ find_of_mem leftSorted member),
      fun member => find_mem ((same pair.1).symm ▸ find_of_mem rightSorted member)⟩
  have perm : left.Perm right := (List.perm_ext_iff_of_nodup (distinct leftSorted) (distinct rightSorted)).mpr members
  exact perm.eq_of_pairwise (fun a b _ _ less more => absurd less (not_lt.mpr more.le)) leftSorted rightSorted

theorem flatMap_put_perm {pairs : List (K × List V)} (sorted : Sorted pairs) (key : K) (value : V) :
    ((put key ((find key pairs).getD [] ++ [value]) pairs).flatMap Prod.snd).Perm (value :: pairs.flatMap Prod.snd) := by
  induction pairs with
  | nil => exact List.Perm.refl _
  | cons pair rest ih =>
    obtain ⟨other, values⟩ := pair
    obtain ⟨before, sortedRest⟩ := List.pairwise_cons.mp sorted
    rcases lt_trichotomy key other with smaller | rfl | larger
    · have absent : find key ((other, values) :: rest) = none := by
        cases found : find key ((other, values) :: rest) with
        | none => rfl
        | some old =>
          rcases List.mem_cons.mp (find_mem found) with same | later
          · exact absurd (congrArg Prod.fst same) smaller.ne
          · exact absurd (smaller.trans (before _ later)) (lt_irrefl _)
      simp [absent, put, smaller]
    · simp [find, put]
    · simp only [find, larger.ne, if_false, put, not_lt_of_gt larger, larger.ne', List.flatMap_cons]
      exact ((ih sortedRest).append_left values).trans List.perm_middle

theorem put_append {key : K} (last : ∀ pair ∈ pairs, pair.1 < key) : put key value pairs = pairs ++ [(key, value)] := by
  induction pairs with
  | nil => rfl
  | cons head rest ih =>
    obtain ⟨other, old⟩ := head
    have less : other < key := last (other, old) (by simp)
    rw [put, if_neg (not_lt.mpr less.le), if_neg (ne_of_gt less), ih (fun pair member => last pair (by simp [member]))]
    rfl

end Pairs

/-! ## Maps that carry their order -/

structure OrdMap (K V : Type) [LinearOrder K] where
  entries : List (K × V)
  sorted : Sorted entries

namespace OrdMap
variable {K V W : Type} [LinearOrder K]

def empty : OrdMap K V := ⟨[], List.Pairwise.nil⟩

def get (map : OrdMap K V) (key : K) : Option V := find key map.entries

def insert (map : OrdMap K V) (key : K) (value : V) : OrdMap K V := ⟨put key value map.entries, sorted_put map.sorted⟩

def erase (map : OrdMap K V) (key : K) : OrdMap K V := ⟨OrderedMap.erase key map.entries, sorted_filter map.sorted⟩

def filter (map : OrdMap K V) (keep : K → V → Bool) : OrdMap K V :=
  ⟨map.entries.filter (fun pair => keep pair.1 pair.2), sorted_filter map.sorted⟩

def mapValues (map : OrdMap K V) (f : K → V → W) : OrdMap K W :=
  ⟨map.entries.map (fun pair => (pair.1, f pair.1 pair.2)), sorted_map map.sorted⟩

@[simp] theorem get_empty (key : K) : (empty : OrdMap K V).get key = none := rfl

@[simp] theorem get_insert (map : OrdMap K V) (key sought : K) (value : V) :
    (map.insert key value).get sought = if key = sought then some value else map.get sought :=
  find_put key sought value map.entries

@[simp] theorem get_erase (map : OrdMap K V) (key sought : K) :
    (map.erase key).get sought = if key = sought then none else map.get sought :=
  find_erase key sought map.entries

@[simp] theorem get_filter (map : OrdMap K V) (keep : K → V → Bool) (key : K) :
    (map.filter keep).get key = (map.get key).filter (keep key) :=
  find_filter map.sorted key

@[simp] theorem get_mapValues (map : OrdMap K V) (f : K → V → W) (key : K) :
    (map.mapValues f).get key = (map.get key).map (f key) :=
  find_map key f map.entries

theorem mem_entries {map : OrdMap K V} {key : K} {value : V} : (key, value) ∈ map.entries ↔ map.get key = some value :=
  ⟨find_of_mem map.sorted, find_mem⟩

theorem forall_get {map : OrdMap K V} {holds : K → V → Prop} (each : ∀ pair ∈ map.entries, holds pair.1 pair.2) :
    ∀ key value, map.get key = some value → holds key value :=
  fun key value found => each (key, value) (mem_entries.mpr found)

theorem ext_get {left right : OrdMap K V} (same : ∀ key, left.get key = right.get key) : left = right := by
  cases left with | mk pairs leftSorted => cases right with | mk others rightSorted =>
    have equal := sorted_ext leftSorted rightSorted same
    subst equal
    rfl

theorem keys_nodup (map : OrdMap K V) : (map.entries.map Prod.fst).Nodup := by
  have ordered : (map.entries.map Prod.fst).Pairwise (· < ·) := List.pairwise_map.mpr map.sorted
  exact ordered.imp (fun less => ne_of_lt less)

/-! ## The same map under other keys -/

section Renamed
variable {N : Type} [LinearOrder N] {name : K → N}

/-- The right map holds what the left one holds, under the names of its keys. -/
structure Renamed (name : K → N) (left : OrdMap K V) (right : OrdMap N V) : Prop where
  same : ∀ key, right.get (name key) = left.get key
  only : ∀ text value, right.get text = some value → ∃ key, text = name key

theorem renamed_empty : Renamed name (empty : OrdMap K V) empty := ⟨fun _ => rfl, by simp⟩

theorem renamed_insert (injective : Function.Injective name) {left : OrdMap K V} {right : OrdMap N V}
    (renamed : Renamed name left right) (key : K) (value : V) : Renamed name (left.insert key value) (right.insert (name key) value) where
  same other := by
    simp only [get_insert, renamed.same]
    by_cases equal : key = other
    · simp [equal]
    · have different : name key ≠ name other := fun clash => equal (injective clash)
      simp [equal, different]
  only text found held := by
    rw [get_insert] at held
    split_ifs at held with equal
    · exact ⟨key, equal.symm⟩
    · exact renamed.only text found held

theorem renamed_filter {left : OrdMap K V} {right : OrdMap N V} (renamed : Renamed name left right) (keep : V → Bool) :
    Renamed name (left.filter (fun _ value => keep value)) (right.filter (fun _ value => keep value)) where
  same key := by simp [renamed.same]
  only text value held := by
    rw [get_filter, Option.filter_eq_some_iff] at held
    exact renamed.only text value held.1

theorem renamed_mapValues {left : OrdMap K V} {right : OrdMap N V} (renamed : Renamed name left right) (f : V → W) :
    Renamed name (left.mapValues (fun _ value => f value)) (right.mapValues (fun _ value => f value)) where
  same key := by simp [renamed.same]
  only text value held := by
    rw [get_mapValues, Option.map_eq_some_iff] at held
    obtain ⟨old, found, -⟩ := held
    exact renamed.only text old found

end Renamed

end OrdMap
end TaskExplorer.OrderedMap
