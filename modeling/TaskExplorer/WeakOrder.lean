import Mathlib

/-!
# Strict weak orders and maps sorted by them

A relation that is asymmetric and keeps to one side of every third element is a strict weak
order. A list sorted by one is a map.
-/

namespace TaskExplorer.WeakOrder

/-- What is less is less than a third element, or that one is less than the other. -/
def Sides {α : Type*} (lt : α → α → Prop) (a b c : α) : Prop := lt a c → lt a b ∨ lt b c

section Orders
variable {α : Type*} {lt : α → α → Prop}

theorem weak_of_sides (asymm : ∀ a b, lt a b → ¬ lt b a) (sides : ∀ a b c, Sides lt a b c) : IsStrictWeakOrder α lt where
  irrefl a less := asymm a a less less
  trans a b c first second := (sides a c b first).resolve_right fun other => asymm c b other second
  incomp_trans a b c first second :=
    ⟨fun less => (sides a b c less).elim first.1 second.1, fun less => (sides c b a less).elim second.2 first.2⟩

theorem asymm_of_weak [IsStrictWeakOrder α lt] {a b : α} (less : lt a b) : ¬ lt b a :=
  fun other => Std.Irrefl.irrefl a (IsTrans.trans a b a less other)

theorem sides_of_weak [IsStrictWeakOrder α lt] (a b c : α) : Sides lt a b c := by
  intro less
  by_contra neither
  rw [not_or] at neither
  have before : ¬ lt b a := fun other => neither.2 (IsTrans.trans b a c other less)
  have behind : ¬ lt c b := fun other => neither.1 (IsTrans.trans a c b less other)
  exact (IsStrictWeakOrder.incomp_trans a b c ⟨neither.1, before⟩ ⟨neither.2, behind⟩).1 less

/-- `std::lexicographical_compare`. -/
def lexicographical (lt : α → α → Bool) : List α → List α → Bool
  | _, [] => false
  | [], _ :: _ => true
  | a :: l, b :: r => if lt a b then true else if lt b a then false else lexicographical lt l r

theorem lexicographical_asymm {lt : α → α → Bool} {l r : List α} (asymm : ∀ a ∈ l, ∀ b ∈ r, lt a b = true → ¬ lt b a = true)
    (less : lexicographical lt l r = true) : ¬ lexicographical lt r l = true := by
  induction l generalizing r with
  | nil => cases r <;> simp [lexicographical]
  | cons a l ih =>
    cases r with
    | nil => simp [lexicographical] at less
    | cons b r =>
      have first := asymm a (by simp) b (by simp)
      rw [lexicographical] at less ⊢
      split_ifs at less with before behind
      · rw [if_neg (first before), if_pos before]
        exact Bool.false_ne_true
      · rw [if_neg behind, if_neg before]
        exact ih (fun c member d member' => asymm c (by simp [member]) d (by simp [member'])) less

theorem lexicographical_sides {lt : α → α → Bool} {l m r : List α} (good : α → Prop) (inside : ∀ a, a ∈ l ∨ a ∈ m ∨ a ∈ r → good a)
    (sides : ∀ a b c, good a → good b → good c → Sides (lt · · = true) a b c) : Sides (lexicographical lt · · = true) l m r := by
  induction l generalizing m r with
  | nil =>
    cases r with
    | nil => simp [Sides, lexicographical]
    | cons c r => cases m <;> simp [Sides, lexicographical]
  | cons a l ih =>
    cases r with
    | nil => simp [Sides, lexicographical]
    | cons c r =>
      cases m with
      | nil => simp [Sides, lexicographical]
      | cons b m =>
        have ga := inside a (by simp)
        have gb := inside b (by simp)
        have gc := inside c (by simp)
        intro less
        simp only [lexicographical] at less ⊢
        by_cases ab : lt a b = true
        · simp [ab]
        by_cases bc : lt b c = true
        · simp [bc]
        have ac : ¬ lt a c = true := fun less => (sides a b c ga gb gc less).elim ab bc
        simp only [ac] at less
        by_cases ca : lt c a = true
        · simp [ca] at less
        have ba : ¬ lt b a = true := fun less => (sides b c a gb gc ga less).elim bc ca
        have cb : ¬ lt c b = true := fun less => (sides c a b gc ga gb less).elim ca ab
        simp only [ca] at less
        simp only [ab, ba, bc, cb]
        exact ih (fun d member => inside d (by rcases member with h | h | h <;> simp [h])) less

end Orders

/-! ## Maps -/

section Maps
variable {K V : Type*} (lt : K → K → Bool)

/-- `QMap::insert`: what is there keeps its key. -/
def insert (key : K) (value : V) : List (K × V) → List (K × V)
  | [] => [(key, value)]
  | entry :: rest =>
    if lt entry.1 key then entry :: insert key value rest else if lt key entry.1 then (key, value) :: entry :: rest else (entry.1, value) :: rest

def find (key : K) : List (K × V) → Option V
  | [] => none
  | entry :: rest => if lt entry.1 key then find key rest else if lt key entry.1 then none else some entry.2

def Same (a b : K) : Prop := ¬ lt a b = true ∧ ¬ lt b a = true

instance (a b : K) : Decidable (Same lt a b) := inferInstanceAs (Decidable (_ ∧ _))

def Sorted (entries : List (K × V)) : Prop := entries.Pairwise fun a b => lt a.1 b.1 = true

/-- The map after these were inserted. -/
def inserted (pairs : List (K × V)) : List (K × V) := pairs.foldl (fun entries pair => insert lt pair.1 pair.2 entries) []

/-- What was inserted last for a key. -/
def last_of (pairs : List (K × V)) (key : K) : Option V :=
  pairs.foldl (fun before pair => if Same lt pair.1 key then some pair.2 else before) none

variable [weak : IsStrictWeakOrder K (lt · · = true)] {lt}

theorem lt_of_same {a b c : K} (less : lt a b = true) (same : Same lt b c) : lt a c = true :=
  (@sides_of_weak K (lt · · = true) _ a c b less).resolve_right same.2

theorem lt_of_not_lt {a b c : K} (before : ¬ lt b a = true) (less : lt b c = true) : lt a c = true :=
  (@sides_of_weak K (lt · · = true) _ b a c less).resolve_left before

theorem same_lt {a b c : K} (same : Same lt a b) (less : lt b c = true) : lt a c = true :=
  lt_of_not_lt same.2 less

theorem lt_trans {a b c : K} (first : lt a b = true) (second : lt b c = true) : lt a c = true := weak.trans a b c first second

theorem lt_asymm {a b : K} (less : lt a b = true) : ¬ lt b a = true := @asymm_of_weak K (lt · · = true) _ a b less

omit weak in
theorem Same.symm {a b : K} (same : Same lt a b) : Same lt b a := ⟨same.2, same.1⟩

theorem find_insert (key other : K) (value : V) (entries : List (K × V)) :
    find lt other (insert lt key value entries) = if Same lt key other then some value else find lt other entries := by
  induction entries with
  | nil =>
    by_cases less : lt key other = true
    · simp [insert, find, Same, less]
    · by_cases more : lt other key = true <;> simp [insert, find, Same, less, more]
  | cons entry rest ih =>
    rw [insert]
    by_cases before : lt entry.1 key = true
    · rw [if_pos before, find, find]
      by_cases less : lt entry.1 other = true
      · rw [if_pos less, if_pos less, ih]
      · have apart : ¬ Same lt key other := fun same => less (lt_of_same before same)
        rw [if_neg less, if_neg less, if_neg apart]
    · rw [if_neg before]
      by_cases behind : lt key entry.1 = true
      · rw [if_pos behind, find]
        by_cases less : lt key other = true
        · rw [if_pos less, if_neg fun same => same.1 less]
        · rw [if_neg less]
          by_cases more : lt other key = true
          · have first := lt_trans more behind
            rw [if_pos more, if_neg fun same => same.2 more, find, if_neg (lt_asymm first), if_pos first]
          · rw [if_neg more, if_pos ⟨less, more⟩]
      · rw [if_neg behind, find, find]
        have here : Same lt entry.1 key := ⟨before, behind⟩
        by_cases less : lt entry.1 other = true
        · rw [if_pos less, if_pos less, if_neg fun same => same.1 (same_lt here.symm less)]
        · rw [if_neg less, if_neg less]
          by_cases more : lt other entry.1 = true
          · rw [if_pos more, if_pos more, if_neg fun same => same.2 (lt_of_same more here)]
          · rw [if_neg more, if_pos ⟨fun other => less (same_lt here other), fun other => more (lt_of_same other here.symm)⟩]

omit weak in
theorem mem_insert {key : K} {value : V} {entries : List (K × V)} {entry : K × V} (member : entry ∈ insert lt key value entries) :
    entry.1 = key ∨ ∃ other ∈ entries, other.1 = entry.1 := by
  induction entries with
  | nil =>
    rw [insert, List.mem_singleton] at member
    exact .inl (congrArg Prod.fst member)
  | cons first rest ih =>
    rw [insert] at member
    split_ifs at member
    · rcases List.mem_cons.mp member with rfl | inside
      · exact .inr ⟨entry, by simp, rfl⟩
      · exact (ih inside).imp_right fun ⟨other, among, same⟩ => ⟨other, by simp [among], same⟩
    · rcases List.mem_cons.mp member with rfl | inside
      · exact .inl rfl
      · exact .inr ⟨entry, inside, rfl⟩
    · rcases List.mem_cons.mp member with rfl | inside
      · exact .inr ⟨first, by simp, rfl⟩
      · exact .inr ⟨entry, by simp [inside], rfl⟩

theorem sorted_insert (key : K) (value : V) {entries : List (K × V)} (sorted : Sorted lt entries) : Sorted lt (insert lt key value entries) := by
  induction entries with
  | nil => exact List.pairwise_singleton _ _
  | cons entry rest ih =>
    obtain ⟨first, later⟩ := List.pairwise_cons.mp sorted
    rw [insert]
    split_ifs with before behind
    · refine List.pairwise_cons.mpr ⟨fun other member => ?_, ih later⟩
      rcases mem_insert member with same | ⟨there, among, same⟩
      · rwa [same]
      · rw [← same]
        exact first there among
    · refine List.pairwise_cons.mpr ⟨fun other member => ?_, sorted⟩
      rcases List.mem_cons.mp member with rfl | inside
      · exact behind
      · exact lt_trans behind (first other inside)
    · exact List.pairwise_cons.mpr ⟨first, later⟩

theorem map_kept (pairs : List (K × V)) : Sorted lt (inserted lt pairs) ∧ ∀ key, find lt key (inserted lt pairs) = last_of lt pairs key := by
  induction pairs using List.reverseRecOn with
  | nil => exact ⟨List.Pairwise.nil, fun _ => rfl⟩
  | append_singleton pairs pair ih =>
    obtain ⟨sorted, found⟩ := ih
    simp only [inserted, last_of, List.foldl_append, List.foldl_cons, List.foldl_nil] at sorted found ⊢
    exact ⟨sorted_insert pair.1 pair.2 sorted, fun other => by rw [find_insert, found]⟩

end Maps

end TaskExplorer.WeakOrder
