import Mathlib

/-!
# Lists changed in one place

An entry of a list is found by a test, and changed or taken out where it stands.
-/

namespace TaskExplorer.ListEdits

section
variable {α β : Type}

theorem modify_append (before after : List α) (value : α) (change : α → α) :
    (before ++ value :: after).modify before.length change = before ++ change value :: after := by
  induction before with
  | nil => rfl
  | cons first rest ih => simp [ih]

theorem eraseIdx_append_cons (before after : List α) (value : α) :
    (before ++ value :: after).eraseIdx before.length = before ++ after := by
  induction before with
  | nil => rfl
  | cons first rest ih => simp [ih]

variable {values : List α} {index : Nat}

theorem findIdx?_split {test : α → Bool} (found : values.findIdx? test = some index) :
    ∃ before value after, values = before ++ value :: after ∧ before.length = index ∧ test value = true ∧
      ∀ other ∈ before, test other = false := by
  induction values generalizing index with
  | nil => simp at found
  | cons first rest ih =>
    rw [List.findIdx?_cons] at found
    by_cases hit : test first = true
    · simp only [hit, if_true, Option.some.injEq] at found
      exact ⟨[], first, rest, rfl, found, hit, by simp⟩
    · simp only [hit] at found
      obtain ⟨position, later, rfl⟩ := Option.map_eq_some_iff.mp found
      obtain ⟨before, value, after, rfl, rfl, matched, passed⟩ := ih later
      refine ⟨first :: before, value, after, rfl, rfl, matched, ?_⟩
      intro other member
      rcases List.mem_cons.mp member with rfl | earlier
      · exact Bool.eq_false_iff.mpr hit
      · exact passed other earlier

theorem forall_modify {holds : α → Prop} {change : α → α} (each : ∀ value ∈ values, holds value)
    (kept : ∀ value ∈ values, holds value → holds (change value)) :
    ∀ value ∈ values.modify index change, holds value := by
  intro value member
  obtain ⟨position, bound, rfl⟩ := List.getElem_of_mem member
  rw [List.length_modify] at bound
  rw [List.getElem_modify]
  split
  · exact kept _ (List.getElem_mem bound) (each _ (List.getElem_mem bound))
  · exact each _ (List.getElem_mem bound)

theorem map_modify_same {field : α → β} {change : α → α} (same : ∀ value, field (change value) = field value) :
    (values.modify index change).map field = values.map field := by
  induction values generalizing index with
  | nil => simp
  | cons first rest ih =>
    cases index with
    | zero => simp [same]
    | succ index => simp [ih]

theorem pairwise_modify {related : α → α → Prop} {change : α → α}
    (left : ∀ {first second}, related first second → related (change first) second)
    (right : ∀ {first second}, related first second → related first (change second)) (pairs : values.Pairwise related) :
    (values.modify index change).Pairwise related := by
  induction values generalizing index with
  | nil => simp
  | cons first rest ih =>
    rw [List.pairwise_cons] at pairs
    cases index with
    | zero =>
      simp only [List.modify_zero_cons, List.pairwise_cons]
      exact ⟨fun other member => left (pairs.1 other member), pairs.2⟩
    | succ index =>
      simp only [List.modify_succ_cons, List.pairwise_cons]
      exact ⟨forall_modify pairs.1 (fun _ _ => right), ih pairs.2⟩

/-! ## Lists side by side -/

theorem forall₂_modify {related : α → α → Prop} (same : ∀ value, related value value) {change : α → α}
    (changed : ∀ value, values[index]? = some value → related value (change value)) :
    List.Forall₂ related values (values.modify index change) := by
  induction values generalizing index with
  | nil => simp
  | cons first rest ih =>
    cases index with
    | zero => exact .cons (changed first rfl) (List.forall₂_same.mpr (fun value _ => same value))
    | succ index => exact .cons (same first) (ih changed)

theorem forall₂_mem_left {holds : α → β → Prop} {left : List α} {right : List β}
    (related : List.Forall₂ holds left right) {value : α} (member : value ∈ left) : ∃ other ∈ right, holds value other := by
  induction related with
  | nil => simp at member
  | cons head tail ih =>
    rcases List.mem_cons.mp member with rfl | later
    · exact ⟨_, by simp, head⟩
    · obtain ⟨other, found, holds⟩ := ih later
      exact ⟨other, List.mem_cons_of_mem _ found, holds⟩

theorem forall₂_mem_right {holds : α → β → Prop} {left : List α} {right : List β}
    (related : List.Forall₂ holds left right) {value : β} (member : value ∈ right) : ∃ other ∈ left, holds other value := by
  exact forall₂_mem_left (List.Forall₂.flip related) member

theorem forall₂_getElem? {related : α → β → Prop} {left : List α} {right : List β}
    (each : List.Forall₂ related left right) {value : α} (here : left[index]? = some value) :
    ∃ other, right[index]? = some other ∧ related value other := by
  induction each generalizing index with
  | nil => simp at here
  | cons head tail ih =>
    cases index with
    | zero =>
      cases here
      exact ⟨_, rfl, head⟩
    | succ index => exact ih here

theorem pairwise_forall₂ {related : α → β → Prop} {old : α → α → Prop} {new : β → β → Prop} {left : List α} {right : List β}
    (each : List.Forall₂ related left right)
    (carried : ∀ {first second other another}, related first other → related second another → old first second →
      new other another) (pairs : left.Pairwise old) : right.Pairwise new := by
  induction each with
  | nil => exact List.Pairwise.nil
  | cons head tail ih =>
    rw [List.pairwise_cons] at pairs ⊢
    refine ⟨?_, ih pairs.2⟩
    intro another member
    obtain ⟨second, found, matched⟩ := forall₂_mem_right tail member
    exact carried head matched (pairs.1 second found)

end

end TaskExplorer.ListEdits
