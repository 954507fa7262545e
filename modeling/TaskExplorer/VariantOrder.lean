import TaskExplorer.WeakOrder

/-!
# The order of variants

`operator<` orders variants by their type, lists by their length and then element by element,
and everything else by `QVariant::compare`.
-/

namespace TaskExplorer.VariantOrder
open WeakOrder

inductive QPartialOrdering where
  | Less
  | Equivalent
  | Greater
  | Unordered
deriving DecidableEq

/-- `QMetaType::QVariantList` and `QMetaType::User`. -/
def QVariantList : Nat := 9
def User : Nat := 65536

/-- The values that are not lists: their metatypes, and what `QVariant::compare` says of two. -/
structure Values (α : Type) where
  typeId : α → Nat
  compare : α → α → QPartialOrdering
  not_list : ∀ value, typeId value ≠ QVariantList

inductive QVariant (α : Type) where
  | single (value : α)
  | list (items : List (QVariant α))

variable {α : Type} (values : Values α)

/-- `QVariant::type`, which takes all types that are registered by programs for one. -/
def type : QVariant α → Nat
  | .single value => if User ≤ values.typeId value then User else values.typeId value
  | .list _ => QVariantList

mutual
/-- `operator<`; the elements are those of lists of one length. -/
def less (l r : QVariant α) : Bool :=
  if type values l ≠ type values r then decide (type values l < type values r)
  else
    match l, r with
    | .list lList, .list rList => if lList.length ≠ rList.length then decide (lList.length < rList.length) else elements lList rList
    | .single l, .single r => values.compare l r = .Less
    | _, _ => false
termination_by sizeOf l + sizeOf r

def elements : List (QVariant α) → List (QVariant α) → Bool
  | l :: lList, r :: rList => if less l r then true else if less r l then false else elements lList rList
  | _, _ => false
termination_by l r => sizeOf l + sizeOf r
end

/-- `QVariant::compare` is a strict total order, up to equality, on the values of a metatype. -/
structure Total (typeId : Nat) : Prop where
  ordered : ∀ a b, values.typeId a = typeId → values.typeId b = typeId → values.compare a b ≠ .Unordered
  refl : ∀ a, values.typeId a = typeId → values.compare a a = .Equivalent
  swap : ∀ a b, values.typeId a = typeId → values.typeId b = typeId → (values.compare a b = .Less ↔ values.compare b a = .Greater)
  trans : ∀ a b c, values.typeId a = typeId → values.typeId b = typeId → values.typeId c = typeId →
    values.compare a b = .Less → values.compare b c = .Less → values.compare a c = .Less
  equal : ∀ a b c, values.typeId a = typeId → values.typeId b = typeId → values.typeId c = typeId →
    values.compare a b = .Equivalent → values.compare a c = values.compare b c

/-- The values of all registered types are ordered together. -/
def UserOrdered : Prop := IsStrictWeakOrder { value // User ≤ values.typeId value } fun a b => values.compare a.val b.val = .Less

/-- A map with such keys keeps one entry of each, and finds what was inserted last for it. -/
def Kept {K : Type} (lt : K → K → Bool) : Prop :=
  ∀ (V : Type) (pairs : List (K × V)), Sorted lt (inserted lt pairs) ∧ ∀ key, find lt key (inserted lt pairs) = last_of lt pairs key

/-! ## One metatype, one type -/

/-- Values that `type` gives one number for. -/
def OneType (a b : α) : Prop := type values (.single a) = type values (.single b)

variable {values}

theorem asymm_of_total {typeId : Nat} (total : Total values typeId) {a b : α} (ha : values.typeId a = typeId) (hb : values.typeId b = typeId)
    (first : values.compare a b = .Less) : values.compare b a ≠ .Less := by
  rw [(total.swap a b ha hb).mp first]
  simp

theorem sides_of_total {typeId : Nat} (total : Total values typeId) {a b c : α} (ha : values.typeId a = typeId) (hb : values.typeId b = typeId)
    (hc : values.typeId c = typeId) : Sides (values.compare · · = .Less) a b c := by
  intro first
  dsimp only at first ⊢
  cases second : values.compare a b with
  | Less => exact .inl rfl
  | Equivalent => exact .inr (by rw [← total.equal a b c ha hb hc second, first])
  | Greater => exact .inr (total.trans b a c hb ha hc ((total.swap b a hb ha).mpr second) first)
  | Unordered => exact absurd second (total.ordered a b ha hb)

theorem same_type {a b : α} (same : OneType values a b) :
    values.typeId a = values.typeId b ∨ User ≤ values.typeId a ∧ User ≤ values.typeId b := by
  simp only [OneType, type] at same
  split_ifs at same with ha hb hb
  · exact .inr ⟨ha, hb⟩
  · omega
  · omega
  · exact .inl same

section Ordered
variable (total : ∀ typeId, Total values typeId) (user : UserOrdered values)
include total user

theorem compare_asymm {a b : α} (same : OneType values a b) (first : values.compare a b = .Less) : values.compare b a ≠ .Less := by
  rcases same_type same with types | ⟨ha, hb⟩
  · exact asymm_of_total (total _) rfl types.symm first
  · exact @asymm_of_weak _ _ user ⟨a, ha⟩ ⟨b, hb⟩ first

theorem compare_sides {a b c : α} (same : OneType values a b) (same' : OneType values b c) : Sides (values.compare · · = .Less) a b c := by
  rcases same_type same with types | ⟨ha, hb⟩
  · rcases same_type same' with types' | ⟨hb, hc⟩
    · exact sides_of_total (total _) rfl types.symm (types.trans types').symm
    · exact @sides_of_weak _ _ user ⟨a, by omega⟩ ⟨b, hb⟩ ⟨c, hc⟩
  · have hc : User ≤ values.typeId c := by rcases same_type same' with types' | both <;> omega
    exact @sides_of_weak _ _ user ⟨a, ha⟩ ⟨b, hb⟩ ⟨c, hc⟩

end Ordered

/-! ## All variants -/

theorem elements_eq {l r : List (QVariant α)} (length : l.length = r.length) : elements values l r = lexicographical (less values) l r := by
  induction l generalizing r with
  | nil => cases r <;> simp [elements, lexicographical] at length ⊢
  | cons a l ih =>
    cases r with
    | nil => simp at length
    | cons b r => rw [elements, lexicographical, ih (by simpa using length)]

theorem less_iff (l r : QVariant α) : less values l r = true ↔ type values l < type values r ∨ type values l = type values r ∧
    ((∃ a b, l = .single a ∧ r = .single b ∧ values.compare a b = .Less) ∨ ∃ lList rList, l = .list lList ∧ r = .list rList ∧
      (lList.length < rList.length ∨ lList.length = rList.length ∧ lexicographical (less values) lList rList = true)) := by
  rw [less.eq_def]
  split_ifs with types
  · simp [types]
  · rw [not_not] at types
    cases l with
    | single a =>
      cases r with
      | single b => simp [types]
      | list rList => simp [types]
    | list lList =>
      cases r with
      | single b => simp [types]
      | list rList =>
        have one : type values (.list lList) = type values (.list rList) := rfl
        by_cases length : lList.length = rList.length
        · simp [one, length, elements_eq length]
        · simp [one, length]

theorem less_asymm (total : ∀ typeId, Total values typeId) (user : UserOrdered values) (n : Nat) :
    ∀ a b : QVariant α, sizeOf a < n → sizeOf b < n → less values a b = true → ¬ less values b a = true := by
  induction n with
  | zero => intro a b small; omega
  | succ n ih =>
    intro a b ha hb first second
    rw [less_iff] at first second
    obtain smaller | ⟨types, first⟩ := first
    · omega
    obtain smaller | ⟨-, second⟩ := second
    · omega
    obtain ⟨x, y, rfl, rfl, first⟩ | ⟨l, r, rfl, rfl, first⟩ := first
    · obtain ⟨_, _, h, h', second⟩ | ⟨_, _, h, -⟩ := second
      · cases h
        cases h'
        exact compare_asymm total user types first second
      · cases h
    · obtain ⟨_, _, h, -⟩ | ⟨_, _, h, h', second⟩ := second
      · cases h
      · cases h
        cases h'
        have inside : ∀ x ∈ l, ∀ y ∈ r, less values x y = true → ¬ less values y x = true := by
          intro x hx y hy
          have sx := List.sizeOf_lt_of_mem hx
          have sy := List.sizeOf_lt_of_mem hy
          rw [QVariant.list.sizeOf_spec] at ha hb
          exact ih x y (by omega) (by omega)
        have first := first.resolve_left (by omega)
        exact lexicographical_asymm inside first.2 (second.resolve_left (by omega)).2

theorem less_sides (total : ∀ typeId, Total values typeId) (user : UserOrdered values) (n : Nat) :
    ∀ a b c : QVariant α, sizeOf a < n → sizeOf b < n → sizeOf c < n → Sides (less values · · = true) a b c := by
  induction n with
  | zero => intro a b c small; omega
  | succ n ih =>
    intro a b c ha hb hc first
    simp only [less_iff] at first ⊢
    rcases Nat.lt_trichotomy (type values a) (type values b) with smaller | types | larger
    · exact .inl (.inl smaller)
    · obtain smaller | ⟨types', first⟩ := first
      · exact .inr (.inl (by omega))
      obtain ⟨x, z, rfl, rfl, first⟩ | ⟨l, r, rfl, rfl, first⟩ := first
      · cases b with
        | single y =>
          have both := compare_sides total user types (types.symm.trans types') first
          exact both.imp (fun less => .inr ⟨types, .inl ⟨x, y, rfl, rfl, less⟩⟩) fun less => .inr ⟨types.symm.trans types', .inl ⟨y, z, rfl, rfl, less⟩⟩
        | list m =>
          have single := values.not_list x
          simp only [type] at types
          split_ifs at types
          · simp [User, QVariantList] at types
          · exact absurd types single
      · cases b with
        | single y =>
          have single := values.not_list y
          simp only [type] at types
          split_ifs at types
          · simp [User, QVariantList] at types
          · exact absurd types.symm single
        | list m =>
          have deeper : ∀ x, x ∈ l ∨ x ∈ m ∨ x ∈ r → sizeOf x < n := by
            rw [QVariant.list.sizeOf_spec] at ha hb hc
            rintro x (member | member | member) <;> have small := List.sizeOf_lt_of_mem member <;> omega
          rcases Nat.lt_trichotomy l.length m.length with shorter | length | longer
          · exact .inl (.inr ⟨rfl, .inr ⟨l, m, rfl, rfl, .inl shorter⟩⟩)
          · obtain shorter | ⟨length', first⟩ := first
            · exact .inr (.inr ⟨rfl, .inr ⟨m, r, rfl, rfl, .inl (by omega)⟩⟩)
            · have both := lexicographical_sides (fun x => sizeOf x < n) deeper ih first
              exact both.imp (fun less => .inr ⟨rfl, .inr ⟨l, m, rfl, rfl, .inr ⟨length, less⟩⟩⟩)
                fun less => .inr ⟨rfl, .inr ⟨m, r, rfl, rfl, .inr ⟨by omega, less⟩⟩⟩
          · exact .inr (.inr ⟨rfl, .inr ⟨m, r, rfl, rfl, .inl (by omega)⟩⟩)
    · exact .inr (.inl (by rcases first with smaller | ⟨same, -⟩ <;> omega))

theorem less_weak (total : ∀ typeId, Total values typeId) (user : UserOrdered values) : IsStrictWeakOrder (QVariant α) (less values · · = true) := by
  refine weak_of_sides (fun a b => ?_) fun a b c => ?_
  · exact less_asymm total user (max (sizeOf a) (sizeOf b) + 1) a b (by omega) (by omega)
  · exact less_sides total user (max (sizeOf a) (max (sizeOf b) (sizeOf c)) + 1) a b c (by omega) (by omega) (by omega)

theorem paths_weak [IsStrictWeakOrder (QVariant α) (less values · · = true)] :
    IsStrictWeakOrder (List (QVariant α)) (lexicographical (less values) · · = true) :=
  weak_of_sides (fun _ _ => lexicographical_asymm fun _ _ _ _ => lt_asymm)
    fun _ _ _ => lexicographical_sides (fun _ => True) (fun _ _ => trivial) fun a b c _ _ _ => sides_of_weak a b c

theorem user_of_weak [IsStrictWeakOrder (QVariant α) (less values · · = true)] : UserOrdered values := by
  have same (a b : { value // User ≤ values.typeId value }) :
      values.compare a.val b.val = .Less ↔ less values (.single a.val) (.single b.val) = true := by
    have types : type values (.single a.val) = type values (.single b.val) := by rw [type, if_pos a.2, type, if_pos b.2]
    rw [less_iff]
    simp [types]
  refine weak_of_sides (fun a b => ?_) fun a b c => ?_
  · rw [same, same]
    exact lt_asymm
  · simp only [Sides, same]
    exact @sides_of_weak _ (less values · · = true) _ (QVariant.single a.val) (QVariant.single b.val) (QVariant.single c.val)

theorem kept_of_weak {K : Type} {lt : K → K → Bool} [IsStrictWeakOrder K (lt · · = true)] : Kept lt := fun _ pairs => map_kept pairs

/-- The order of variants is an order exactly when `QVariant::compare` orders all registered types together; then no map loses a key. -/
theorem variant_order (values : Values α) (total : ∀ typeId, Total values typeId) :
    (IsStrictWeakOrder (QVariant α) (less values · · = true) ↔ UserOrdered values) ∧
      (UserOrdered values → Kept (less values) ∧ Kept (lexicographical (less values))) := by
  refine ⟨⟨fun _ => user_of_weak, less_weak total⟩, fun user => ?_⟩
  have weak := less_weak total user
  exact ⟨kept_of_weak, @kept_of_weak _ _ paths_weak⟩

/-! ## Two registered types -/

/-- Numbers of different metatypes; those of one are compared, and two metatypes are not. -/
def numbers (typeId : Bool → Nat) (not_list : ∀ kind, typeId kind ≠ QVariantList) : Values (Bool × Int) where
  typeId value := typeId value.1
  compare a b := if typeId a.1 ≠ typeId b.1 then .Unordered else if a.2 < b.2 then .Less else if a.2 = b.2 then .Equivalent else .Greater
  not_list value := not_list value.1

theorem numbers_total {typeId : Bool → Nat} {not_list : ∀ kind, typeId kind ≠ QVariantList} (type : Nat) : Total (numbers typeId not_list) type := by
  have one {a b : Bool × Int} (ha : typeId a.1 = type) (hb : typeId b.1 = type) : (numbers typeId not_list).compare a b =
      if a.2 < b.2 then .Less else if a.2 = b.2 then .Equivalent else .Greater := by
    simp only [numbers]
    rw [if_neg (not_not.mpr (ha.trans hb.symm))]
  refine ⟨fun a b ha hb => ?_, fun a ha => ?_, fun a b ha hb => ?_, fun a b c ha hb hc first second => ?_, fun a b c ha hb hc same => ?_⟩
  · rw [one ha hb]
    split_ifs <;> simp
  · rw [one ha ha]
    simp
  · rw [one ha hb, one hb ha]
    split_ifs <;> first | omega | simp
  · rw [one ha hb] at first
    rw [one hb hc] at second
    rw [one ha hc]
    split_ifs at first second ⊢ <;> first | rfl | omega
  · rw [one ha hb] at same
    rw [one ha hc, one hb hc]
    split_ifs at same with _ equal
    rw [equal]

/-- `QDate` and `QTime`. -/
def built_in : Values (Bool × Int) := numbers (fun kind => if kind then 15 else 14) (by decide)

def registered : Values (Bool × Int) := numbers (fun kind => if kind then User + 1 else User) (by decide)

theorem variant_order_built_in : IsStrictWeakOrder (QVariant (Bool × Int)) (less built_in · · = true) := by
  refine (variant_order built_in fun typeId => numbers_total typeId).1.mpr ?_
  have none_ (a : { value // User ≤ built_in.typeId value }) : False := by
    obtain ⟨⟨kind, number⟩, large⟩ := a
    cases kind <;> exact absurd large (by simp [built_in, numbers, User])
  exact weak_of_sides (fun a => (none_ a).elim) fun a => (none_ a).elim

/-- A value of another registered type is as great as two values that are not as great as each other. -/
theorem registered_disorder : (∀ typeId, Total registered typeId) ∧ ¬ IsStrictWeakOrder (QVariant (Bool × Int)) (less registered · · = true) := by
  refine ⟨fun typeId => numbers_total typeId, fun weak => ?_⟩
  have user : UserOrdered registered := user_of_weak
  have apart := user.incomp_trans ⟨(false, 0), by decide⟩ ⟨(true, 0), by decide⟩ ⟨(false, 1), by decide⟩
  exact (apart (by decide) (by decide)).1 (by decide)

end TaskExplorer.VariantOrder
