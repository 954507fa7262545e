import Mathlib

/-!
# Maximal runs

The maximal runs of the positions with a property, in a range and in the windows of the range.
One pass with a counter finds them.
-/

namespace TaskExplorer.Runs

variable {ok : Nat → Prop} {lo hi first last : Nat}

/-! ## Runs of a range -/

/-- The positions from `first` on and before `last` are as many with the property as there are in a row. -/
structure MaximalRun (ok : Nat → Prop) (lo hi first last : Nat) : Prop where
  nonempty : first < last
  low : lo ≤ first
  high : last ≤ hi
  all : ∀ i, first ≤ i → i < last → ok i
  left : first = lo ∨ ¬ ok (first - 1)
  right : last = hi ∨ ¬ ok last

theorem MaximalRun.unique {first' last' i : Nat} (run : MaximalRun ok lo hi first last) (other : MaximalRun ok lo hi first' last')
    (here : first ≤ i ∧ i < last) (there : first' ≤ i ∧ i < last') : first = first' ∧ last = last' := by
  have starts {f l f' l' : Nat} (run : MaximalRun ok lo hi f l) (other : MaximalRun ok lo hi f' l')
      (here : f ≤ i ∧ i < l) (there : f' ≤ i ∧ i < l') : f' ≤ f := by
    rcases other.left with start | stop
    · have := run.low
      omega
    · by_contra further
      exact stop (run.all _ (by omega) (by omega))
  have ends {f l f' l' : Nat} (run : MaximalRun ok lo hi f l) (other : MaximalRun ok lo hi f' l')
      (here : f ≤ i ∧ i < l) (there : f' ≤ i ∧ i < l') : l ≤ l' := by
    rcases other.right with stop | stop
    · have := run.high
      omega
    · by_contra further
      exact stop (run.all _ (by omega) (by omega))
  exact ⟨Nat.le_antisymm (starts other run there here) (starts run other here there),
    Nat.le_antisymm (ends run other here there) (ends other run there here)⟩

theorem reach_left (first : Nat) (low : lo ≤ first) (h : ∀ i, first ≤ i → i < last → ok i) :
    ∃ start, lo ≤ start ∧ start ≤ first ∧ (∀ i, start ≤ i → i < last → ok i) ∧ (start = lo ∨ ¬ ok (start - 1)) := by
  induction first with
  | zero => exact ⟨0, low, le_refl 0, h, .inl (by omega)⟩
  | succ n ih =>
    by_cases start : n + 1 = lo
    · exact ⟨n + 1, low, le_refl _, h, .inl start⟩
    by_cases further : ok n
    · obtain ⟨start, above, below, all, stop⟩ := ih (by omega) fun i from_n before => by
        rcases Nat.eq_or_lt_of_le from_n with rfl | later
        · exact further
        · exact h i later before
      exact ⟨start, above, by omega, all, stop⟩
    · exact ⟨n + 1, low, le_refl _, h, .inr further⟩

theorem reach_right (room : Nat) (high : last + room = hi) (h : ∀ i, first ≤ i → i < last → ok i) :
    ∃ stop, last ≤ stop ∧ stop ≤ hi ∧ (∀ i, first ≤ i → i < stop → ok i) ∧ (stop = hi ∨ ¬ ok stop) := by
  induction room generalizing last with
  | zero => exact ⟨last, le_refl _, by omega, h, .inl (by omega)⟩
  | succ room ih =>
    by_cases further : ok last
    · obtain ⟨stop, above, below, all, ends⟩ := @ih (last + 1) (by omega) fun i from_first before => by
        rcases Nat.eq_or_lt_of_le (Nat.le_of_lt_succ before) with rfl | earlier
        · exact further
        · exact h i from_first earlier
      exact ⟨stop, by omega, below, all, ends⟩
    · exact ⟨last, le_refl _, by omega, h, .inr further⟩

/-! ## Runs of a window -/

variable {wlo whi : Nat}

theorem MaximalRun.cut (run : MaximalRun ok lo hi first last) (low : lo ≤ wlo) (high : whi ≤ hi) (shared : max first wlo < min last whi) :
    MaximalRun ok wlo whi (max first wlo) (min last whi) := by
  refine ⟨shared, le_max_right _ _, min_le_right _ _, fun i above below => run.all i (by omega) (by omega), ?_, ?_⟩
  · rcases Nat.lt_or_ge wlo first with inside | outside
    · rw [Nat.max_eq_left (by omega)]
      rcases run.left with start | stop
      · omega
      · exact .inr stop
    · exact .inl (Nat.max_eq_right outside)
  · rcases Nat.lt_or_ge last whi with inside | outside
    · rw [Nat.min_eq_left (by omega)]
      rcases run.right with ends | stop
      · omega
      · exact .inr stop
    · exact .inl (Nat.min_eq_right outside)

theorem MaximalRun.whole (run : MaximalRun ok wlo whi first last) (low : lo ≤ wlo) (high : whi ≤ hi) :
    ∃ start stop, MaximalRun ok lo hi start stop ∧ first = max start wlo ∧ last = min stop whi := by
  have inside := run.low
  have outside := run.high
  have some := run.nonempty
  obtain ⟨start, above, below, left_all, left⟩ := reach_left first (inside.trans' low) run.all
  obtain ⟨stop, later, before, all, right⟩ := @reach_right ok hi start last (hi - last) (by omega) left_all
  refine ⟨start, stop, ⟨by omega, above, before, all, left, right⟩, ?_, ?_⟩
  · rcases run.left with edge | ends
    · omega
    · by_contra different
      exact ends (left_all _ (by omega) (by omega))
  · rcases run.right with edge | ends
    · omega
    · by_contra different
      exact ends (all _ (by omega) (by omega))

/-! ## The pass -/

variable {least : Nat}

/-- The run that stands before `i`, when it ends there, is the only one that starts between its start and `i`. -/
theorem now_iff {i Run : Nat} (positive : 0 < least) (h : lo + Run ≤ i) (high : i ≤ hi) (all : ∀ k, i - Run ≤ k → k < i → ok k)
    (left : i - Run = lo ∨ ¬ ok (i - Run - 1)) (right : i = hi ∨ ¬ ok i) :
    (least ≤ Run ∧ first = i - Run ∧ last = i) ↔
      i - Run ≤ first ∧ first < i ∧ MaximalRun ok lo hi first last ∧ least ≤ last - first := by
  constructor
  · rintro ⟨long, rfl, rfl⟩
    exact ⟨le_refl _, by omega, ⟨by omega, by omega, high, all, left, right⟩, by omega⟩
  · rintro ⟨above, below, run, long⟩
    have here : MaximalRun ok lo hi (i - Run) i := ⟨by omega, by omega, high, all, left, right⟩
    obtain ⟨rfl, rfl⟩ := run.unique here ⟨le_refl first, run.nonempty⟩ ⟨above, below⟩
    exact ⟨by omega, rfl, rfl⟩

/-- One pass over `n` positions from `i` on; `Run` positions with the property stand right before `i`. -/
def scan (ok : Nat → Prop) [DecidablePred ok] (least : Nat) : Nat → Nat → Nat → List (Nat × Nat)
  | 0, i, Run => if least ≤ Run then [(i - Run, i)] else []
  | n + 1, i, Run =>
    if ok i then scan ok least n (i + 1) (Run + 1)
    else (if least ≤ Run then [(i - Run, i)] else []) ++ scan ok least n (i + 1) 0

variable [DecidablePred ok]

theorem scan_from (n i Run : Nat) (h : Run ≤ i) : ∀ run ∈ scan ok least n i Run, i - Run ≤ run.1 := by
  induction n generalizing i Run with
  | zero =>
    intro run member
    rw [scan] at member
    split_ifs at member <;> simp at member
    simp [member]
  | succ n ih =>
    intro run member
    rw [scan] at member
    split_ifs at member with here long
    · have := ih (i + 1) (Run + 1) (by omega) run member
      omega
    · rcases List.mem_append.mp member with now | later
      · simp [List.mem_singleton.mp now]
      · have := ih (i + 1) 0 (by omega) run later
        omega
    · have := ih (i + 1) 0 (by omega) run member
      omega

theorem scan_nodup (n i Run : Nat) (h : Run ≤ i) : (scan ok least n i Run).Nodup := by
  induction n generalizing i Run with
  | zero =>
    rw [scan]
    split_ifs <;> simp
  | succ n ih =>
    rw [scan]
    split_ifs with here long
    · exact ih (i + 1) (Run + 1) (by omega)
    · refine List.nodup_append.mpr ⟨by simp, ih (i + 1) 0 (by omega), fun now first later member => ?_⟩
      rw [List.mem_singleton.mp first]
      rintro rfl
      have := scan_from n (i + 1) 0 (by omega) _ member
      omega
    · exact ih (i + 1) 0 (by omega)

theorem mem_scan (n i Run : Nat) (positive : 0 < least) (h : lo + Run ≤ i) (all : ∀ k, i - Run ≤ k → k < i → ok k)
    (left : i - Run = lo ∨ ¬ ok (i - Run - 1)) :
    (first, last) ∈ scan ok least n i Run ↔ i - Run ≤ first ∧ MaximalRun ok lo (i + n) first last ∧ least ≤ last - first := by
  induction n generalizing i Run with
  | zero =>
    have now := @now_iff ok lo i first last least i Run positive h (le_refl i) all left (.inl rfl)
    have found : (first, last) ∈ scan ok least 0 i Run ↔ least ≤ Run ∧ first = i - Run ∧ last = i := by
      rw [scan]
      split_ifs with long <;> simp [long]
    rw [found, now]
    constructor
    · rintro ⟨above, -, run, long⟩
      exact ⟨above, run, long⟩
    · rintro ⟨above, run, long⟩
      have := run.nonempty
      have := run.high
      exact ⟨above, by omega, run, long⟩
  | succ n ih =>
    have same : i + 1 + n = i + (n + 1) := by omega
    by_cases here : ok i
    · have later := ih (i + 1) (Run + 1) (by omega) (fun k above below => by
        rcases Nat.eq_or_lt_of_le (Nat.le_of_lt_succ below) with rfl | earlier
        · exact here
        · exact all k (by omega) earlier) (by rwa [Nat.add_sub_add_right])
      rw [scan, if_pos here, later, same, Nat.add_sub_add_right]
    · have later := ih (i + 1) 0 (by omega) (fun k above below => by omega) (.inr here)
      have now := @now_iff ok lo (i + (n + 1)) first last least i Run positive h (by omega) all left (.inr here)
      have found : (first, last) ∈ scan ok least (n + 1) i Run ↔
          (least ≤ Run ∧ first = i - Run ∧ last = i) ∨ (first, last) ∈ scan ok least n (i + 1) 0 := by
        rw [scan, if_neg here, List.mem_append]
        split_ifs with long <;> simp [long]
      rw [found, now, later, same]
      constructor
      · rintro (⟨above, -, run, long⟩ | ⟨above, run, long⟩)
        · exact ⟨above, run, long⟩
        · exact ⟨by omega, run, long⟩
      · rintro ⟨above, run, long⟩
        rcases Nat.lt_or_ge first i with before | after
        · exact .inl ⟨above, before, run, long⟩
        · rcases Nat.eq_or_lt_of_le after with rfl | beyond
          · exact absurd (run.all _ (le_refl _) run.nonempty) here
          · exact .inr ⟨beyond, run, long⟩

theorem mem_scan_range (positive : 0 < least) (n : Nat) :
    (first, last) ∈ scan ok least n lo 0 ↔ MaximalRun ok lo (lo + n) first last ∧ least ≤ last - first := by
  rw [mem_scan n lo 0 positive (le_refl lo) (fun k above below => by omega) (.inl rfl)]
  exact ⟨fun h => h.2, fun h => ⟨h.1.low, h⟩⟩

/-! ## The passes over windows -/

theorem apart_of_nodup {α β : Type*} {l : List α} {f : α → List β} (h : (l.flatMap f).Nodup) {a b : α} (ha : a ∈ l) (hb : b ∈ l)
    (different : a ≠ b) : List.Disjoint (f a) (f b) := by
  have : Std.Symm (Function.onFun List.Disjoint f) := ⟨fun _ _ apart => apart.symm⟩
  exact (List.nodup_flatMap.mp h).2.forall ha hb different

/-- What is reported is what is expected, each once. -/
def Exact {α : Type*} (reported : List α) (expected : α → Prop) : Prop :=
  reported.Nodup ∧ ∀ a, a ∈ reported ↔ expected a

section Exact
variable {α β : Type*}

theorem exact_perm {l l' : List α} {expected expected' : α → Prop} (h : l.Perm l') (same : ∀ a, expected a ↔ expected' a) :
    Exact l expected ↔ Exact l' expected' := by
  simp only [Exact, h.nodup_iff, h.mem_iff, same]

theorem exact_append (kind : α → Prop) {l l' : List α} {expected expected' : α → Prop} (is : ∀ a ∈ l, kind a) (isnt : ∀ a ∈ l', ¬ kind a)
    (e : ∀ a, expected a → kind a) (e' : ∀ a, expected' a → ¬ kind a) :
    Exact (l ++ l') (fun a => expected a ∨ expected' a) ↔ Exact l expected ∧ Exact l' expected' := by
  constructor
  · rintro ⟨once, found⟩
    rw [List.nodup_append] at once
    simp only [List.mem_append] at found
    refine ⟨⟨once.1, fun a => ?_⟩, once.2.1, fun a => ?_⟩
    · have := found a
      have := is a
      have := isnt a
      have := e a
      have := e' a
      tauto
    · have := found a
      have := is a
      have := isnt a
      have := e a
      have := e' a
      tauto
  · rintro ⟨⟨once, found⟩, once', found'⟩
    refine ⟨List.nodup_append.mpr ⟨once, once', fun a ha b hb same => isnt b hb (same ▸ is a ha)⟩, fun a => ?_⟩
    rw [List.mem_append, found, found']

theorem exact_map {f : α → β} {l : List α} {expected : α → Prop} (row : α → Prop) (is : ∀ a ∈ l, row a) (e : ∀ a, expected a → row a)
    (inj : ∀ a b, row a → row b → f a = f b → a = b) :
    Exact (l.map f) (fun b => ∃ a, expected a ∧ f a = b) ↔ Exact l expected := by
  have inj_l : ∀ a ∈ l, ∀ b ∈ l, f a = f b → a = b := fun a ha b hb => inj a b (is a ha) (is b hb)
  simp only [Exact, List.mem_map]
  constructor
  · rintro ⟨once, found⟩
    refine ⟨once.of_map f, fun a => ⟨fun ha => ?_, fun ha => ?_⟩⟩
    · obtain ⟨b, hb, same⟩ := (found (f a)).mp ⟨a, ha, rfl⟩
      rwa [← inj b a (e b hb) (is a ha) same]
    · obtain ⟨b, hb, same⟩ := (found (f a)).mpr ⟨a, ha, rfl⟩
      rwa [← inj b a (is b hb) (e a ha) same]
  · rintro ⟨once, found⟩
    exact ⟨(List.nodup_map_iff_inj_on once).mpr inj_l, fun b => by simp only [found]⟩

end Exact

/-- The positions that a run and a window share. -/
def shared (run window : Nat × Nat) : Nat := min run.2 (window.1 + window.2) - max run.1 window.1

/-- The run lies in the window. -/
def Inside (run window : Nat × Nat) : Prop := window.1 ≤ run.1 ∧ run.2 ≤ window.1 + window.2

/-- Every long run has `least` positions in one window only, and lies in it. -/
def Separated (ok : Nat → Prop) (least lo hi : Nat) (windows : List (Nat × Nat)) : Prop :=
  ∀ first last, MaximalRun ok lo hi first last → least ≤ last - first →
    ∃ window ∈ windows, Inside (first, last) window ∧ ∀ other ∈ windows, least ≤ shared (first, last) other → other = window

variable {windows : List (Nat × Nat)}

theorem mem_piece (positive : 0 < least) {run window : Nat × Nat} :
    run ∈ scan ok least window.2 window.1 0 ↔ MaximalRun ok window.1 (window.1 + window.2) run.1 run.2 ∧ least ≤ run.2 - run.1 :=
  mem_scan_range positive window.2

theorem piece_of (positive : 0 < least) {window : Nat × Nat} (low : lo ≤ window.1) (high : window.1 + window.2 ≤ hi)
    (run : MaximalRun ok lo hi first last) (long : least ≤ shared (first, last) window) :
    (max first window.1, min last (window.1 + window.2)) ∈ scan ok least window.2 window.1 0 := by
  simp only [shared] at long
  exact (mem_piece positive).mpr ⟨run.cut low high (by omega), by simpa using long⟩

theorem of_piece (positive : 0 < least) {window piece : Nat × Nat} (low : lo ≤ window.1) (high : window.1 + window.2 ≤ hi)
    (member : piece ∈ scan ok least window.2 window.1 0) :
    ∃ first last, MaximalRun ok lo hi first last ∧ least ≤ last - first ∧ least ≤ shared (first, last) window ∧
      piece = (max first window.1, min last (window.1 + window.2)) := by
  obtain ⟨run, long⟩ := (mem_piece positive).mp member
  obtain ⟨first, last, whole, starts, ends⟩ := run.whole low high
  refine ⟨first, last, whole, by omega, ?_, Prod.ext starts ends⟩
  simp only [shared]
  omega

theorem exact_iff_separated (positive : 0 < least) (distinct : windows.Nodup)
    (low : ∀ window ∈ windows, lo ≤ window.1) (high : ∀ window ∈ windows, window.1 + window.2 ≤ hi) :
    Exact (windows.flatMap fun window => scan ok least window.2 window.1 0)
        (fun run => MaximalRun ok lo hi run.1 run.2 ∧ least ≤ run.2 - run.1) ↔
      Separated ok least lo hi windows := by
  constructor
  · rintro ⟨once, found⟩ first last run long
    obtain ⟨window, member, here⟩ := List.mem_flatMap.mp ((found (first, last)).mpr ⟨run, long⟩)
    have piece := ((mem_piece positive).mp here).1
    refine ⟨window, member, ⟨piece.low, piece.high⟩, fun other there enough => ?_⟩
    have cut := piece_of positive (low other there) (high other there) run enough
    have also := ((found _).mp (List.mem_flatMap.mpr ⟨other, there, cut⟩)).1
    simp only [shared] at enough
    have same := also.unique (i := max first other.1) run ⟨le_refl _, by simp only []; omega⟩ ⟨by omega, by omega⟩
    by_contra different
    refine apart_of_nodup once there member different cut ?_
    rwa [show (max first other.1, min last (other.1 + other.2)) = (first, last) from Prod.ext same.1 same.2]
  · intro separated
    constructor
    · refine List.nodup_flatMap.mpr ⟨fun window _ => scan_nodup _ _ _ (by omega), ?_⟩
      refine distinct.pairwise_of_forall_ne fun a ha b hb different piece in_a in_b => different ?_
      obtain ⟨first, last, run, long, enough, rfl⟩ := of_piece positive (low a ha) (high a ha) in_a
      obtain ⟨first', last', run', -, enough', shape⟩ := of_piece positive (low b hb) (high b hb) in_b
      simp only [Prod.mk.injEq] at shape
      obtain ⟨rfl, rfl⟩ := run.unique (i := max first a.1) run' (by simp only [shared] at enough; omega)
        (by simp only [shared] at enough enough'; omega)
      obtain ⟨window, -, -, only⟩ := separated first last run long
      rw [only a ha enough, only b hb enough']
    · rintro ⟨f, l⟩
      constructor
      · intro member
        obtain ⟨window, there, piece⟩ := List.mem_flatMap.mp member
        obtain ⟨first, last, run, long, enough, shape⟩ := of_piece positive (low window there) (high window there) piece
        obtain ⟨home, -, inside, only⟩ := separated first last run long
        obtain rfl := only window there enough
        have in_home : window.1 ≤ first ∧ last ≤ window.1 + window.2 := inside
        rw [shape, Nat.max_eq_left in_home.1, Nat.min_eq_left in_home.2]
        exact ⟨run, long⟩
      · rintro ⟨run, long⟩
        obtain ⟨home, there, inside, -⟩ := separated f l run long
        have in_home : home.1 ≤ f ∧ l ≤ home.1 + home.2 := inside
        have piece := piece_of positive (low home there) (high home there) run (by
          rw [shared, Nat.min_eq_left in_home.2, Nat.max_eq_left in_home.1]
          exact long)
        rw [Nat.max_eq_left in_home.1, Nat.min_eq_left in_home.2] at piece
        exact List.mem_flatMap.mpr ⟨home, there, piece⟩

end TaskExplorer.Runs
