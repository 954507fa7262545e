import TaskExplorer.OrderedMap

/-!
# Groups and ranks

Values are put into groups by a key, and two groups of the same size are paired by the
order of their members. Where the members of one group have their counterparts in the
other and both orders agree, each is paired with its own.
-/

namespace TaskExplorer.Ranks
open OrderedMap

section
variable {K V : Type} [LinearOrder K]

/-- The values of each key, in their order. -/
def grouped (key : V → K) (values : List V) : OrdMap K (List V) :=
  values.foldl (fun groups value => groups.insert (key value) ((groups.get (key value)).getD [] ++ [value])) .empty

theorem grouped_snoc (key : V → K) (values : List V) (value : V) :
    grouped key (values ++ [value]) =
      (grouped key values).insert (key value) (((grouped key values).get (key value)).getD [] ++ [value]) := by
  rw [grouped, List.foldl_append]
  rfl

theorem get_grouped (key : V → K) (values : List V) (sought : K) :
    ((grouped key values).get sought).getD [] = values.filter (fun value => key value = sought) := by
  induction values using List.reverseRecOn with
  | nil => rfl
  | append_singleton values value ih =>
    rw [grouped_snoc, OrdMap.get_insert, List.filter_append]
    by_cases same : key value = sought
    · subst same
      rw [if_pos rfl, Option.getD_some, ih, List.filter_singleton]
      simp
    · rw [if_neg same, ih, List.filter_singleton]
      simp [same]

theorem grouped_mem {key : V → K} {values : List V} {sought : K} {group : List V} (found : (grouped key values).get sought = some group) :
    group = values.filter (fun value => key value = sought) := by
  rw [← get_grouped, found, Option.getD_some]

end

section
variable {V W : Type}

/-- The values in the order of a number. -/
def sort_by (number : V → Nat) (values : List V) : List V := values.insertionSort fun one two => number one ≤ number two

theorem sort_by_perm (number : V → Nat) (values : List V) : (sort_by number values).Perm values := List.perm_insertionSort _ _

theorem sort_by_pairwise (number : V → Nat) (values : List V) : (sort_by number values).Pairwise fun one two => number one ≤ number two := by
  have total : Std.Total fun one two : V => number one ≤ number two := ⟨fun one two => Nat.le_total _ _⟩
  have trans : IsTrans V fun one two => number one ≤ number two := ⟨fun _ _ _ => Nat.le_trans⟩
  exact List.pairwise_insertionSort _ _

theorem mem_zip_map {f : V → W} {values : List V} {pair : V × W} (member : pair ∈ values.zip (values.map f)) : pair.1 ∈ values ∧ pair.2 = f pair.1 := by
  rw [← List.map_prod_left_eq_zip] at member
  obtain ⟨value, among, rfl⟩ := List.mem_map.mp member
  exact ⟨among, rfl⟩

variable {left : V → Nat} {right : W → Nat} {own : V → W} {ours : List V} {peers : List W}

theorem paired_own (members : ∀ value ∈ ours, own value ∈ peers) (distinct : (ours.map left).Nodup) (apart : (peers.map right).Nodup)
    (order : ∀ one ∈ ours, ∀ two ∈ ours, left one < left two → right (own one) < right (own two)) (same : ours.length = peers.length)
    {pair : V × W} (member : pair ∈ (sort_by left ours).zip (sort_by right peers)) : pair.1 ∈ ours ∧ pair.2 = own pair.1 := by
  have ascending : ∀ one ∈ ours, ∀ two ∈ ours, left one ≤ left two → right (own one) ≤ right (own two) := by
    intro one first two second less
    rcases Nat.lt_or_eq_of_le less with less | equal
    · exact Nat.le_of_lt (order one first two second less)
    · rw [List.inj_on_of_nodup_map distinct first second equal]
  have injective : ∀ one ∈ ours, ∀ two ∈ ours, own one = own two → one = two := by
    intro one first two second equal
    refine List.inj_on_of_nodup_map distinct first second (Nat.le_antisymm ?_ ?_)
    · by_contra more
      exact absurd (order two second one first (Nat.lt_of_not_le more)) (by rw [equal]; exact Nat.lt_irrefl _)
    · by_contra more
      exact absurd (order one first two second (Nat.lt_of_not_le more)) (by rw [equal]; exact Nat.lt_irrefl _)
  have perm : (ours.map own).Perm peers := by
    have nodup : (ours.map own).Nodup := List.Nodup.map_on injective (List.Nodup.of_map left distinct)
    have subset : ours.map own ⊆ peers := fun value among => by
      obtain ⟨one, first, rfl⟩ := List.mem_map.mp among
      exact members one first
    exact (List.subperm_of_subset nodup subset).perm_of_length_le (by rw [List.length_map, same])
  have sorted : (sort_by left ours).map own = sort_by right peers := by
    refine List.Perm.eq_of_pairwise (fun one two first second less more => ?_) ?_ (sort_by_pairwise right peers) ?_
    · have isOne : one ∈ peers := (((sort_by_perm left ours).map own).trans perm).mem_iff.mp first
      exact List.inj_on_of_nodup_map apart isOne ((sort_by_perm right peers).mem_iff.mp second) (Nat.le_antisymm less more)
    · rw [List.pairwise_map]
      refine (sort_by_pairwise left ours).imp_of_mem fun first second less => ?_
      exact ascending _ ((sort_by_perm left ours).mem_iff.mp first) _ ((sort_by_perm left ours).mem_iff.mp second) less
    · exact (((sort_by_perm left ours).map own).trans perm).trans (sort_by_perm right peers).symm
  rw [← sorted] at member
  obtain ⟨among, isOwn⟩ := mem_zip_map member
  exact ⟨(sort_by_perm left ours).mem_iff.mp among, isOwn⟩

end

end TaskExplorer.Ranks
