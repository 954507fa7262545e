import Mathlib

/-!
# Wildcards

Items that match one character and items that match a run, up to a folding of the characters.
Literal parts spread over a text, with gaps of given characters.
-/

namespace TaskExplorer.Wildcards

inductive Item (α : Type*) where
  | lit (c : α)
  | any
  | run
  | set (members : α → Bool)

variable {α γ : Type*} {fold : α → γ} {dot : α → Bool}

/-! ## Matching -/

section Matching
variable [DecidableEq γ]

/-- What an item other than a run takes. -/
def one (fold : α → γ) (dot : α → Bool) : Item α → α → Bool
  | .lit c, x => fold x == fold c
  | .any, x => dot x
  | .run, _ => false
  | .set members, x => members x

/-- `next` somewhere after characters that a run may take. -/
def after_run (dot : α → Bool) (next : List α → Bool) : List α → Bool
  | [] => next []
  | x :: s => next (x :: s) || dot x && after_run dot next s

/-- The whole text is matched. -/
def matched (fold : α → γ) (dot : α → Bool) : List (Item α) → List α → Bool
  | [], s => s.isEmpty
  | .run :: items, s => after_run dot (matched fold dot items) s
  | _ :: _, [] => false
  | item :: items, x :: s => one fold dot item x && matched fold dot items s

/-- A part of the text is matched. -/
def contained (fold : α → γ) (dot : α → Bool) (items : List (Item α)) (s : List α) : Bool :=
  s.tails.any fun later => later.inits.any fun here => matched fold dot items here

def Item.isRun : Item α → Bool
  | .run => true
  | _ => false

/-- The items that take one character each. -/
def singles (items : List (Item α)) : List (Item α) := items.filter fun item => !item.isRun

theorem after_run_iff (next : List α → Bool) (s : List α) :
    after_run dot next s = true ↔ ∃ gap later, s = gap ++ later ∧ (∀ c ∈ gap, dot c = true) ∧ next later = true := by
  induction s with
  | nil =>
    constructor
    · intro h
      exact ⟨[], [], rfl, by simp, h⟩
    · rintro ⟨gap, later, split, -, h⟩
      obtain ⟨rfl, rfl⟩ := List.append_eq_nil_iff.mp split.symm
      exact h
  | cons x s ih =>
    rw [after_run, Bool.or_eq_true, Bool.and_eq_true, ih]
    constructor
    · rintro (h | ⟨takes, gap, later, rfl, all, h⟩)
      · exact ⟨[], x :: s, rfl, by simp, h⟩
      · exact ⟨x :: gap, later, rfl, by simpa [takes] using all, h⟩
    · rintro ⟨gap, later, split, all, h⟩
      cases gap with
      | nil =>
        rw [List.nil_append] at split
        exact .inl (split ▸ h)
      | cons c gap =>
        rw [List.cons_append, List.cons.injEq] at split
        obtain ⟨rfl, rfl⟩ := split
        exact .inr ⟨all x (by simp), gap, later, rfl, fun c member => all c (by simp [member]), h⟩

theorem matched_run (items : List (Item α)) (s : List α) : matched fold dot (.run :: items) s = true ↔
    ∃ gap later, s = gap ++ later ∧ (∀ c ∈ gap, dot c = true) ∧ matched fold dot items later = true := by
  rw [matched]
  exact after_run_iff _ s

theorem matched_single {item : Item α} (single : item.isRun = false) (items : List (Item α)) (s : List α) :
    matched fold dot (item :: items) s = true ↔ ∃ x later, s = x :: later ∧ one fold dot item x = true ∧ matched fold dot items later = true := by
  cases s with
  | nil => cases item <;> simp [matched, Item.isRun] at single ⊢
  | cons x later => cases item <;> simp [matched, Item.isRun] at single ⊢

theorem matched_append (items items' : List (Item α)) (s : List α) : matched fold dot (items ++ items') s = true ↔
    ∃ here later, s = here ++ later ∧ matched fold dot items here = true ∧ matched fold dot items' later = true := by
  induction items generalizing s with
  | nil =>
    constructor
    · intro h
      exact ⟨[], s, rfl, rfl, h⟩
    · rintro ⟨here, later, rfl, nothing, h⟩
      rw [List.isEmpty_iff.mp nothing]
      exact h
  | cons item items ih =>
    rw [List.cons_append]
    by_cases single : item.isRun = false
    · rw [matched_single single]
      simp only [ih, matched_single single]
      constructor
      · rintro ⟨x, _, rfl, takes, here, later, rfl, h, h'⟩
        exact ⟨x :: here, later, rfl, ⟨x, here, rfl, takes, h⟩, h'⟩
      · rintro ⟨_, later, rfl, ⟨x, here, rfl, takes, h⟩, h'⟩
        exact ⟨x, here ++ later, rfl, takes, here, later, rfl, h, h'⟩
    · obtain rfl : item = .run := by cases item <;> simp [Item.isRun] at single ⊢
      rw [matched_run]
      simp only [ih, matched_run]
      constructor
      · rintro ⟨gap, _, rfl, all, here, later, rfl, h, h'⟩
        exact ⟨gap ++ here, later, by rw [List.append_assoc], ⟨gap, here, rfl, all, h⟩, h'⟩
      · rintro ⟨_, later, rfl, ⟨gap, here, rfl, all, h⟩, h'⟩
        exact ⟨gap, here ++ later, by rw [List.append_assoc], all, here, later, rfl, h, h'⟩

theorem contained_iff (items : List (Item α)) (s : List α) :
    contained fold dot items s = true ↔ ∃ before here after, s = before ++ here ++ after ∧ matched fold dot items here = true := by
  simp only [contained, List.any_eq_true, List.mem_tails, List.mem_inits]
  constructor
  · rintro ⟨_, ⟨before, rfl⟩, here, ⟨after, rfl⟩, h⟩
    exact ⟨before, here, after, by rw [List.append_assoc], h⟩
  · rintro ⟨before, here, after, rfl, h⟩
    exact ⟨here ++ after, ⟨before, by rw [List.append_assoc]⟩, here, ⟨after, rfl⟩, h⟩

theorem matched_run_run (items : List (Item α)) (s : List α) :
    matched fold dot (.run :: .run :: items) s = true ↔ matched fold dot (.run :: items) s = true := by
  rw [matched_run]
  constructor
  · rintro ⟨gap, _, rfl, all, h⟩
    obtain ⟨gap', later, rfl, all', h⟩ := (matched_run _ _).mp h
    refine (matched_run _ _).mpr ⟨gap ++ gap', later, by rw [List.append_assoc], fun c member => ?_, h⟩
    exact (List.mem_append.mp member).elim (all c) (all' c)
  · intro h
    exact ⟨[], s, rfl, by simp, h⟩

theorem contained_runs (items : List (Item α)) (s : List α) :
    contained fold dot (.run :: items ++ [.run]) s = true ↔ contained fold dot items s = true := by
  rw [contained_iff, contained_iff]
  constructor
  · rintro ⟨before, here, after, rfl, h⟩
    obtain ⟨gap, _, rfl, -, h⟩ := (matched_run _ _).mp (by rwa [List.cons_append] at h)
    obtain ⟨here, gap', rfl, h, -⟩ := (matched_append _ _ _).mp h
    exact ⟨before ++ gap, here, gap' ++ after, by simp only [List.append_assoc], h⟩
  · rintro ⟨before, here, after, rfl, h⟩
    refine ⟨before, here, after, rfl, (matched_append _ _ _).mpr ⟨here, [], by simp, ?_, by simp [matched, after_run]⟩⟩
    exact (matched_run _ _).mpr ⟨[], here, rfl, by simp, h⟩

theorem matched_of_singles (items : List (Item α)) {s : List α} (h : List.Forall₂ (fun item x => one fold dot item x = true) (singles items) s) :
    matched fold dot items s = true := by
  induction items generalizing s with
  | nil =>
    cases h
    rfl
  | cons item items ih =>
    by_cases single : item.isRun = false
    · have form : singles (item :: items) = item :: singles items := by simp [singles, single]
      rw [form] at h
      cases h with
      | cons takes rest => exact (matched_single single _ _).mpr ⟨_, _, rfl, takes, ih rest⟩
    · have form : singles (item :: items) = singles items := by simp [singles, single]
      obtain rfl : item = .run := by cases item <;> simp [Item.isRun] at single ⊢
      exact (matched_run _ _).mpr ⟨[], s, rfl, by simp, ih (form ▸ h)⟩

theorem singles_of_matched (items : List (Item α)) {s : List α} (h : matched fold dot items s = true) :
    ∃ taken, List.Sublist taken s ∧ List.Forall₂ (fun item x => one fold dot item x = true) (singles items) taken := by
  induction items generalizing s with
  | nil => exact ⟨[], List.nil_sublist s, .nil⟩
  | cons item items ih =>
    by_cases single : item.isRun = false
    · have form : singles (item :: items) = item :: singles items := by simp [singles, single]
      obtain ⟨x, later, rfl, takes, rest⟩ := (matched_single single _ _).mp h
      obtain ⟨taken, inside, all⟩ := ih rest
      exact ⟨x :: taken, inside.cons_cons x, form ▸ .cons takes all⟩
    · have form : singles (item :: items) = singles items := by simp [singles, single]
      obtain rfl : item = .run := by cases item <;> simp [Item.isRun] at single ⊢
      obtain ⟨gap, later, rfl, -, rest⟩ := (matched_run _ _).mp h
      obtain ⟨taken, inside, all⟩ := ih rest
      exact ⟨taken, inside.trans (List.sublist_append_right gap later), form ▸ all⟩

theorem singles_of_contained {items : List (Item α)} {s : List α} (h : contained fold dot items s = true) (short : s.length ≤ (singles items).length) :
    List.Forall₂ (fun item x => one fold dot item x = true) (singles items) s := by
  obtain ⟨before, here, after, rfl, matching⟩ := (contained_iff _ _).mp h
  obtain ⟨taken, inside, all⟩ := singles_of_matched items matching
  have whole : List.Sublist taken (before ++ here ++ after) :=
    (inside.trans (List.sublist_append_right before here)).trans (List.sublist_append_left _ after)
  have size := all.length_eq
  rwa [whole.eq_of_length_le (by omega)] at all

theorem contained_of_matched {items : List (Item α)} {s : List α} (h : matched fold dot items s = true) : contained fold dot items s = true :=
  (contained_iff _ _).mpr ⟨[], s, [], by simp, h⟩

end Matching

/-! ## Parts spread over a text -/

section Spreading

/-- The parts stand in the text in this order, and what is before, between and behind them is of a kind. -/
def Spread (fold : α → γ) (ok : α → Prop) : List (List α) → List α → Prop
  | [], s => ∀ c ∈ s, ok c
  | part :: rest, s => ∃ gap here later, s = gap ++ here ++ later ∧ (∀ c ∈ gap, ok c) ∧ here.map fold = part.map fold ∧ Spread fold ok rest later

variable {ok : α → Prop}

variable {parts : List (List α)}

variable {s : List α}

theorem Spread.prepend (h : Spread fold ok parts s) (gap : List α) (all : ∀ c ∈ gap, ok c) :
    Spread fold ok parts (gap ++ s) := by
  cases parts with
  | nil => exact fun c member => (List.mem_append.mp member).elim (all c) (h c)
  | cons part rest =>
    obtain ⟨gap', here, later, rfl, all', same, rest⟩ := h
    refine ⟨gap ++ gap', here, later, by simp only [List.append_assoc], fun c member => ?_, same, rest⟩
    exact (List.mem_append.mp member).elim (all c) (all' c)

theorem Spread.append {parts parts' : List (List α)} {s s' : List α} (h : Spread fold ok parts s) (h' : Spread fold ok parts' s') :
    Spread fold ok (parts ++ parts') (s ++ s') := by
  induction parts generalizing s with
  | nil => exact h'.prepend s h
  | cons part rest ih =>
    obtain ⟨gap, here, later, rfl, all, same, h⟩ := h
    exact ⟨gap, here, later ++ s', by simp only [List.append_assoc], all, same, ih h⟩

theorem Spread.split {parts' : List (List α)} (spread : Spread fold (fun _ => True) (parts ++ parts') s) :
    ∃ here later, s = here ++ later ∧ Spread fold (fun _ => True) parts here ∧ Spread fold (fun _ => True) parts' later := by
  induction parts generalizing s with
  | nil => exact ⟨[], s, rfl, by simp [Spread], spread⟩
  | cons part rest ih =>
    obtain ⟨gap, here, later, rfl, all, same, spread⟩ := spread
    obtain ⟨here', later, rfl, spread, spread'⟩ := ih spread
    exact ⟨gap ++ here ++ here', later, by simp only [List.append_assoc], ⟨gap, here, here', rfl, all, same, spread⟩, spread'⟩

theorem Spread.reverse (h : Spread fold ok parts s) : Spread fold ok (parts.map List.reverse).reverse s.reverse := by
  induction parts generalizing s with
  | nil => exact fun c member => h c (List.mem_reverse.mp member)
  | cons part rest ih =>
    obtain ⟨gap, here, later, rfl, all, same, h⟩ := h
    have last : Spread fold ok [part.reverse] (here.reverse ++ gap.reverse) := by
      refine ⟨[], here.reverse, gap.reverse, rfl, by simp, ?_, fun c member => all c (List.mem_reverse.mp member)⟩
      rw [List.map_reverse, List.map_reverse, same]
    have whole := (ih h).append last
    simpa only [List.map_cons, List.reverse_cons, List.reverse_append, List.append_assoc] using whole

theorem Spread.mono {ok' : α → Prop} (weaker : ∀ c, ok c → ok' c) (h : Spread fold ok parts s) :
    Spread fold ok' parts s := by
  induction parts generalizing s with
  | nil => exact fun c member => weaker c (h c member)
  | cons part rest ih =>
    obtain ⟨gap, here, later, split, all, same, h⟩ := h
    exact ⟨gap, here, later, split, fun c member => weaker c (all c member), same, ih h⟩

theorem countP_folded {p : α → Bool} (fits : ∀ c d, fold c = fold d → p c = p d) {s' : List α}
    (same : s.map fold = s'.map fold) : s.countP p = s'.countP p := by
  induction s generalizing s' with
  | nil => rw [List.map_eq_nil_iff.mp same.symm]
  | cons c s ih =>
    cases s' with
    | nil => simp at same
    | cons d s' =>
      rw [List.map_cons, List.map_cons, List.cons.injEq] at same
      rw [List.countP_cons, List.countP_cons, ih same.2, fits c d same.1]

def weight (p : α → Bool) (parts : List (List α)) : Nat := (parts.map fun part => part.countP p).sum

theorem Spread.weight_le {p : α → Bool} (fits : ∀ c d, fold c = fold d → p c = p d) (h : Spread fold ok parts s) :
    weight p parts ≤ s.countP p ∧ (s.countP p = weight p parts → Spread fold (fun c => ok c ∧ p c = false) parts s) := by
  induction parts generalizing s with
  | nil =>
    refine ⟨Nat.zero_le _, fun none c member => ⟨h c member, ?_⟩⟩
    have := (List.countP_eq_zero.mp none) c member
    simpa using this
  | cons part rest ih =>
    obtain ⟨gap, here, later, rfl, all, same, h⟩ := h
    obtain ⟨enough, tight⟩ := ih h
    have counts := countP_folded fits same
    have form : weight p (part :: rest) = part.countP p + weight p rest := by simp [weight]
    rw [form]
    simp only [List.countP_append]
    refine ⟨by omega, fun equal => ⟨gap, here, later, rfl, fun c member => ⟨all c member, ?_⟩, same, tight (by omega)⟩⟩
    have := (List.countP_eq_zero.mp (show gap.countP p = 0 by omega)) c member
    simpa using this

theorem Spread.weight_eq {p : α → Bool} (fits : ∀ c d, fold c = fold d → p c = p d) (without : ∀ c, ok c → p c = false)
    (h : Spread fold ok parts s) : s.countP p = weight p parts := by
  induction parts generalizing s with
  | nil => exact List.countP_eq_zero.mpr fun c member => by simp [without c (h c member)]
  | cons part rest ih =>
    obtain ⟨gap, here, later, rfl, all, same, h⟩ := h
    have none : gap.countP p = 0 := List.countP_eq_zero.mpr fun c member => by simp [without c (all c member)]
    have form : weight p (part :: rest) = part.countP p + weight p rest := by simp [weight]
    rw [form, List.countP_append, List.countP_append, none, countP_folded fits same, ih h, Nat.zero_add]

end Spreading

/-! ## One break more than the parts have -/

section Breaks
variable {star br : α}

/-- Parts with something in them and without separators. -/
def Solid (star : α) (parts : List (List α)) : Prop := ∀ part ∈ parts, part ≠ [] ∧ star ∉ part

theorem Solid.tail {part : List α} {rest : List (List α)} (solid : Solid star (part :: rest)) : Solid star rest :=
  fun other member => solid other (List.mem_cons_of_mem part member)

variable {s after : List α}

theorem Spread.starts {part : List α} {rest : List (List α)} {t : List α} {x : α} (other : x ≠ star)
    (spread : Spread fold (· = star) (part :: rest) s) (text : s ++ after = x :: t) :
    ∃ here later, s = here ++ later ∧ here.map fold = part.map fold ∧ Spread fold (· = star) rest later := by
  obtain ⟨gap, here, later, rfl, all, same, behind⟩ := spread
  cases gap with
  | nil => exact ⟨here, later, rfl, same, behind⟩
  | cons c gap =>
    rw [List.cons_append, List.cons_append, List.cons_append, List.cons.injEq] at text
    exact absurd (text.1.symm.trans (all c (by simp))) other

variable {parts : List (List α)}

theorem Spread.behind (alone : ∀ c, fold c = fold star → c = star) (solid : Solid star parts) (some_part : parts ≠ [])
    {t : List α} (spread : Spread fold (· = star) parts s) (text : s ++ after = star :: t) :
    ∃ s', s' ++ after = t ∧ Spread fold (· = star) parts s' := by
  obtain ⟨part, rest, rfl⟩ := List.exists_cons_of_ne_nil some_part
  have first := solid part (by simp)
  obtain ⟨d, part, rfl⟩ := List.exists_cons_of_ne_nil first.1
  obtain ⟨gap, here, later, rfl, all, same, behind⟩ := spread
  cases gap with
  | cons c gap =>
    simp only [List.cons_append, List.cons.injEq] at text
    exact ⟨gap ++ here ++ later, text.2, gap, here, later, rfl, fun c member => all c (by simp [member]), same, behind⟩
  | nil =>
    cases here with
    | nil => simp at same
    | cons c here =>
      simp only [List.nil_append, List.cons_append, List.cons.injEq] at text
      rw [List.map_cons, List.map_cons, List.cons.injEq] at same
      have is_star := alone d (text.1 ▸ same.1.symm)
      exact absurd (by simp [is_star]) first.2

theorem all_breaks (alone : ∀ c, fold c = fold star → c = star) (lone : ∀ c, fold c = fold br → c = br)
    (differ : br ≠ star) (solid : Solid star parts) (text : s ++ after = br :: parts.flatMap (star :: ·))
    (spread : Spread fold (· = star) parts s) : ∀ part ∈ parts, part = [br] := by
  induction parts generalizing s with
  | nil => simp
  | cons part rest ih =>
    have first := solid part (by simp)
    obtain ⟨here, later, rfl, same, behind⟩ := spread.starts differ text
    obtain ⟨d, part, rfl⟩ := List.exists_cons_of_ne_nil first.1
    cases here with
    | nil => simp at same
    | cons c here =>
      rw [List.map_cons, List.map_cons, List.cons.injEq] at same
      simp only [List.cons_append, List.flatMap_cons, List.cons.injEq, List.append_assoc] at text
      obtain ⟨rfl, text⟩ := text
      obtain rfl : d = c := lone d same.1.symm
      -- what follows the break is a separator, which is of no part
      have short : part = [] := by
        cases part with
        | nil => rfl
        | cons d' part =>
          cases here with
          | nil => simp at same
          | cons c' here =>
            have same' := same.2
            rw [List.map_cons, List.map_cons, List.cons.injEq] at same'
            rw [List.cons_append, List.cons.injEq] at text
            have is_star := alone d' (text.1 ▸ same'.1.symm)
            exact absurd (by simp [is_star]) first.2
      subst short
      obtain rfl : here = [] := List.map_eq_nil_iff.mp same.2
      have breaks : ∀ part ∈ rest, part = [d] := by
        by_cases some_part : rest = []
        · simp [some_part]
        · obtain ⟨s', text', spread'⟩ := behind.behind alone solid.tail some_part (by simpa only [List.nil_append] using text)
          exact ih solid.tail (by simpa using text') spread'
      intro other member
      rcases List.mem_cons.mp member with rfl | later_part
      · rfl
      · exact breaks other later_part

theorem breaks_behind (alone : ∀ c, fold c = fold star → c = star) (lone : ∀ c, fold c = fold br → c = br)
    (differ : br ≠ star) {parts' : List (List α)} (solid : Solid star (parts ++ parts'))
    (text : s ++ after = parts.flatMap (· ++ [star]) ++ br :: parts'.flatMap (star :: ·))
    (spread : Spread fold (· = star) (parts ++ parts') s) : ∀ part ∈ parts', part = [br] := by
  induction parts generalizing s with
  | nil => exact all_breaks alone lone differ solid text spread
  | cons part rest ih =>
    have first := solid part (by simp)
    obtain ⟨d, part, rfl⟩ := List.exists_cons_of_ne_nil first.1
    simp only [List.flatMap_cons, List.cons_append, List.append_assoc] at text
    obtain ⟨here, later, rfl, same, behind⟩ := spread.starts (fun is_star => first.2 (by simp [is_star])) text
    -- the part is where it stands, and the others are spread behind it
    have size : here.length = (d :: part).length := by simpa using congrArg List.length same
    have text' : here ++ (later ++ after) = (d :: part) ++ (star :: (rest.flatMap (· ++ [star]) ++ br :: parts'.flatMap (star :: ·))) := by
      simpa [List.append_assoc] using text
    obtain ⟨-, text'⟩ := List.append_inj text' size
    by_cases some_part : rest ++ parts' = []
    · simp [(List.append_eq_nil_iff.mp some_part).2]
    · obtain ⟨s', text', spread'⟩ := behind.behind alone solid.tail some_part text'
      exact ih solid.tail text' spread'

theorem weight_append (p : α → Bool) (parts parts' : List (List α)) : weight p (parts ++ parts') = weight p parts + weight p parts' := by
  simp [weight]

theorem countP_behind {p : α → Bool} (other : p star = false) (parts : List (List α)) :
    (parts.flatMap (· ++ [star])).countP p = weight p parts := by
  induction parts with
  | nil => rfl
  | cons part rest ih => simp [weight, other, ih] at ih ⊢

theorem countP_before {p : α → Bool} (other : p star = false) (parts : List (List α)) :
    (parts.flatMap (star :: ·)).countP p = weight p parts := by
  induction parts with
  | nil => rfl
  | cons part rest ih => simp [weight, other, ih] at ih ⊢

theorem reverse_behind (parts : List (List α)) :
    (parts.flatMap (· ++ [star])).reverse = (parts.map List.reverse).reverse.flatMap (star :: ·) := by
  induction parts with
  | nil => rfl
  | cons part rest ih => simp [ih]

theorem reverse_before (parts : List (List α)) :
    (parts.flatMap (star :: ·)).reverse = (parts.map List.reverse).reverse.flatMap (· ++ [star]) := by
  induction parts with
  | nil => rfl
  | cons part rest ih => simp [ih]

theorem Solid.reverse (solid : Solid star parts) : Solid star (parts.map List.reverse).reverse := by
  intro part member
  obtain ⟨part, inside, rfl⟩ := List.mem_map.mp (List.mem_reverse.mp member)
  simpa using solid part inside

variable [DecidableEq α]

theorem breaks_aside (alone : ∀ c, fold c = fold star → c = star) (lone : ∀ c, fold c = fold br → c = br)
    (differ : br ≠ star) {parts' : List (List α)} (solid : Solid star (parts ++ parts')) {before here : List α}
    (text : before ++ here ++ after = parts.flatMap (· ++ [star]) ++ br :: parts'.flatMap (star :: ·))
    (spread : Spread fold (· ≠ br) (parts ++ parts') here) :
    (∀ part ∈ parts, part = [br]) ∨ ∀ part ∈ parts', part = [br] := by
  have fits_br (c d : α) (same : fold c = fold d) : decide (c = br) = decide (d = br) :=
    decide_eq_decide.mpr ⟨fun e => lone d (e ▸ same.symm), fun e => lone c (e ▸ same)⟩
  have fits_star (c d : α) (same : fold c = fold d) : decide (c ≠ star) = decide (d ≠ star) :=
    decide_eq_decide.mpr (not_congr ⟨fun e => alone d (e ▸ same.symm), fun e => alone c (e ▸ same)⟩)
  have counted (p : α → Bool) (no : p star = false) (yes : p br = true) :
      before.countP p + here.countP p + after.countP p = weight p (parts ++ parts') + 1 := by
    have e := congrArg (List.countP p) text
    simp only [List.countP_append, List.countP_cons, yes, if_true, countP_behind no, countP_before no] at e
    rw [weight_append]
    omega
  have breaks := counted (fun c => decide (c = br)) (by simpa using differ.symm) (by simp)
  have letters := counted (fun c => decide (c ≠ star)) (by simp) (by simpa using differ)
  have none_inside := spread.weight_eq fits_br (by simp)
  obtain ⟨enough, tight⟩ := spread.weight_le fits_star
  have inside_break (l : List α) : l.countP (fun c => decide (c = br)) ≤ l.countP fun c => decide (c ≠ star) :=
    List.countP_mono_left fun c _ is_break => by
      rw [decide_eq_true_eq] at is_break ⊢
      exact is_break ▸ differ
  have before_fits := inside_break before
  have after_fits := inside_break after
  have stars : Spread fold (· = star) (parts ++ parts') here := (tight (by omega)).mono fun c both => by simpa using both.2
  have all_star (l : List α) (none : l.countP (fun c => decide (c ≠ star)) = 0) : ∀ c ∈ l, c = star := fun c member => by
    simpa using List.countP_eq_zero.mp none c member
  -- the break that is left over stands before all parts or behind all of them
  rcases Nat.eq_zero_or_pos (before.countP fun c => decide (c ≠ star)) with none | some_before
  · exact .inr (breaks_behind alone lone differ solid text (stars.prepend before (all_star before none)))
  · have none : after.countP (fun c => decide (c ≠ star)) = 0 := by omega
    have text' : (after.reverse ++ here.reverse) ++ before.reverse =
        (parts'.map List.reverse).reverse.flatMap (· ++ [star]) ++ br :: (parts.map List.reverse).reverse.flatMap (star :: ·) := by
      have e := congrArg List.reverse text
      simpa [List.reverse_append, List.append_assoc, reverse_behind, reverse_before] using e
    have form : ((parts ++ parts').map List.reverse).reverse = (parts'.map List.reverse).reverse ++ (parts.map List.reverse).reverse := by simp
    have solid' := solid.reverse
    have stars' := stars.reverse.prepend after.reverse fun c member => all_star after none c (List.mem_reverse.mp member)
    rw [form] at solid' stars'
    have all := breaks_behind alone lone differ solid' text' stars'
    refine .inl fun part member => ?_
    have e := all part.reverse (List.mem_reverse.mpr (List.mem_map_of_mem member))
    rw [← List.reverse_reverse part, e, List.reverse_singleton]

theorem first_breaks (fold : α → γ) (br : α) (n : Nat) (enough : n ≤ s.countP fun c => decide (c = br)) :
    ∃ here after, s = here ++ after ∧ Spread fold (· ≠ br) (List.replicate n [br]) here := by
  induction n generalizing s with
  | zero => exact ⟨[], s, rfl, by simp [Spread]⟩
  | succ n ih =>
    induction s with
    | nil => simp at enough
    | cons c s ih_s =>
      by_cases is_break : c = br
      · obtain ⟨here, after, rfl, spread⟩ := @ih s (by simpa [is_break] using enough)
        exact ⟨br :: here, after, by rw [is_break, List.cons_append], [], [br], here, rfl, by simp, rfl, spread⟩
      · obtain ⟨here, after, rfl, spread⟩ := ih_s (by simpa [is_break] using enough)
        exact ⟨c :: here, after, rfl, spread.prepend [c] (by simpa using is_break)⟩

theorem breaks_around (lone : ∀ c, fold c = fold br → c = br) (i j : Nat) (part : List α)
    (spread : Spread fold (fun _ => True) (List.replicate i [br] ++ part :: List.replicate j [br]) s) :
    ∃ before here after, s = before ++ here ++ after ∧ Spread fold (· ≠ br) (List.replicate i [br] ++ part :: List.replicate j [br]) here := by
  have fits (c d : α) (same : fold c = fold d) : decide (c = br) = decide (d = br) :=
    decide_eq_decide.mpr ⟨fun e => lone d (e ▸ same.symm), fun e => lone c (e ▸ same)⟩
  have all_breaks (n : Nat) : weight (fun c => decide (c = br)) (List.replicate n [br]) = n := by simp [weight]
  obtain ⟨first, _, rfl, before, gap, here, last, rfl, -, same, after⟩ := spread.split
  have enough_before := (before.weight_le fits).1
  have enough_after := (after.weight_le fits).1
  rw [all_breaks] at enough_before enough_after
  obtain ⟨left, rest, is_first, spread_left⟩ := first_breaks fold br i (s := (first ++ gap).reverse) (by
    rw [List.countP_reverse, List.countP_append]
    omega)
  obtain ⟨right, rest', rfl, spread_right⟩ := first_breaks fold br j enough_after
  have spread_left' := spread_left.reverse
  rw [List.map_replicate, List.reverse_replicate, List.reverse_singleton] at spread_left'
  have is_first' : first ++ gap = rest.reverse ++ left.reverse := by rw [← List.reverse_append, ← is_first, List.reverse_reverse]
  refine ⟨rest.reverse, left.reverse ++ (here ++ right), rest', ?_, spread_left'.append ⟨[], here, right, rfl, by simp, same, spread_right⟩⟩
  calc first ++ (gap ++ here ++ (right ++ rest')) = (first ++ gap) ++ (here ++ (right ++ rest')) := by simp only [List.append_assoc]
    _ = _ := by rw [is_first']; simp only [List.append_assoc]

end Breaks

end TaskExplorer.Wildcards
