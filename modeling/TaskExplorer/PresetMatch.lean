import TaskExplorer.ByteText
import TaskExplorer.Wildcards

/-!
# The patterns of presets

A preset is for the files and command lines its pattern matches. `Test` compiles to a wildcard of
`QRegExp` with Qt 5 and to a rewritten `QRegularExpression` with Qt 6.
-/

namespace TaskExplorer.PresetMatch
open Wildcards ByteText

abbrev QString := List Char

/-! ## What Qt brings -/

/-- Case folding. What is no letter of ASCII folds only to itself, if it is of ASCII. -/
structure Folding where
  fold : Char → Char
  alone : ∀ c d : Char, c.toNat < 128 → c.isAlpha = false → fold d = fold c → d = c

/-- The reading of a set behind its bracket: its members and what follows the other bracket. -/
structure Sets where
  read : QString → Option ((Char → Bool) × QString)
  ends : ∀ {r members rest}, read r = some (members, rest) → ∃ inner, r = inner ++ ']' :: rest

/-- A wildcard of `QRegExp::WildcardUnix`, where a backslash takes their meaning from the special characters. -/
def wildcard_unix (sets : Sets) : QString → Option (List (Item Char))
  | [] => some []
  | c :: rest =>
    if c = '\\' then
      match rest with
      | [] => some [.lit '\\']
      | d :: later =>
        if d = '*' ∨ d = '?' ∨ d = '[' ∨ d = ']' then (wildcard_unix sets later).map (.lit d :: ·)
        else (wildcard_unix sets (d :: later)).map (.lit '\\' :: ·)
    else if c = '*' then (wildcard_unix sets rest).map (.run :: ·)
    else if c = '?' then (wildcard_unix sets rest).map (.any :: ·)
    else if c = '[' then
      match _is_read : sets.read rest with
      | none => none
      | some (members, later) => (wildcard_unix sets later).map (.set members :: ·)
    else (wildcard_unix sets rest).map (.lit c :: ·)
termination_by pattern => pattern.length
decreasing_by
  all_goals simp_wf
  obtain ⟨inner, rfl⟩ := sets.ends _is_read
  simp only [List.length_append, List.length_cons]
  omega

/-- `QRegExp::exactMatch`; nothing matches a pattern that is not valid. -/
def exactMatch (folding : Folding) (sets : Sets) (Pattern s : QString) : Bool :=
  match wildcard_unix sets Pattern with
  | some items => matched folding.fold (fun _ => true) items s
  | none => false

def is_word (c : Char) : Bool := c.isAlphanum || c == '_'

/-- `QRegularExpression::escape` of one character. -/
def escape_one (c : Char) : QString := if c = '\x00' then ['\\', '0'] else if is_word c then [c] else ['\\', c]

def escape (str : QString) : QString := str.flatMap escape_one

/-- `QString::replace` of two characters. -/
def replace (a b : Char) (after : QString) : QString → QString
  | x :: y :: rest => if x = a ∧ y = b then after ++ replace a b after rest else x :: replace a b after (y :: rest)
  | s => s

def is_octal (c : Char) : Bool := '0' ≤ c && c ≤ '7'

def octal_value (digits : QString) : Nat := digits.foldl (fun n d => 8 * n + (d.toNat - 48)) 0

/-- The expressions of PCRE that an escaped text and dots with or without a star make up. -/
def read_regex : QString → List (Item Char)
  | [] => []
  | c :: rest =>
    if c = '\\' then
      match rest with
      | [] => []
      | d :: later =>
        if d = '0' then
          .lit (Char.ofNat (octal_value ((later.take 2).takeWhile is_octal))) :: read_regex (later.drop ((later.take 2).takeWhile is_octal).length)
        else .lit d :: read_regex later
    else if c = '.' then
      match rest with
      | [] => [.any]
      | d :: later => if d = '*' then .run :: read_regex later else .any :: read_regex (d :: later)
    else .lit c :: read_regex rest
termination_by text => text.length
decreasing_by all_goals simp_wf; try omega

/-- `QString::contains` of an expression. A dot is any character but a line feed. -/
def contains (folding : Folding) (expression s : QString) : Bool := contained folding.fold (· != '\n') (read_regex expression) s

/-! ## `CPersistentPreset::Test` -/

/-- Up to Qt 5. -/
def Test5 (folding : Folding) (sets : Sets) (sPattern FileName CommandLine : QString) : Bool :=
  exactMatch folding sets sPattern FileName || exactMatch folding sets sPattern CommandLine

def ExpStr (sPattern : QString) : QString :=
  ".*".toList ++ replace '\\' '?' ".".toList (replace '\\' '*' ".*".toList (escape sPattern)) ++ ".*".toList

/-- From Qt 6 on. -/
def Test6 (folding : Folding) (sPattern FileName CommandLine : QString) : Bool :=
  contains folding (ExpStr sPattern) FileName || contains folding (ExpStr sPattern) CommandLine

/-! ## `CSystemAPI::FindPersistentPreset` -/

/-- `QString::length`, in units of UTF-16. -/
def length (s : QString) : Nat := (s.map fun c => if c.toNat < 0x10000 then 1 else 2).sum

section Find
variable {Preset : Type*} (GetPattern : Preset → QString) (Test : Preset → Bool)

/-- The body of the loop over the table. -/
def find_step (FoundPreset : Option Preset) (pPreset : Preset) : Option Preset :=
  match FoundPreset with
  | some found => if length (GetPattern found) > length (GetPattern pPreset) then some found else if Test pPreset then some pPreset else some found
  | none => if Test pPreset then some pPreset else none

def FindPersistentPreset (presets : List Preset) : Option Preset := presets.foldl (find_step GetPattern Test) none

/-- Nothing where nothing matches, and otherwise the match with the longest pattern. -/
def FoundLongest (presets : List Preset) : Option Preset → Prop
  | none => ∀ preset ∈ presets, Test preset = false
  | some found => found ∈ presets ∧ Test found = true ∧ ∀ preset ∈ presets, Test preset = true → length (GetPattern preset) ≤ length (GetPattern found)

variable {GetPattern Test}

theorem find_step_longest {seen : List Preset} {FoundPreset : Option Preset} (h : FoundLongest GetPattern Test seen FoundPreset) (pPreset : Preset) :
    FoundLongest GetPattern Test (seen ++ [pPreset]) (find_step GetPattern Test FoundPreset pPreset) := by
  unfold find_step
  cases FoundPreset with
  | none =>
    by_cases tests : Test pPreset = true
    · rw [if_pos tests]
      refine ⟨by simp, tests, fun preset member matching => ?_⟩
      rcases List.mem_append.mp member with before | here
      · rw [h preset before] at matching
        exact absurd matching Bool.false_ne_true
      · rw [List.mem_singleton.mp here]
    · rw [if_neg tests]
      intro preset member
      rcases List.mem_append.mp member with before | here
      · exact h preset before
      · rw [List.mem_singleton.mp here]
        simpa using tests
  | some found =>
    obtain ⟨inside, matching, longest⟩ := h
    have kept (short : Test pPreset = true → length (GetPattern pPreset) ≤ length (GetPattern found)) :
        FoundLongest GetPattern Test (seen ++ [pPreset]) (some found) := by
      refine ⟨by simp [inside], matching, fun preset member tests => ?_⟩
      rcases List.mem_append.mp member with before | here
      · exact longest preset before tests
      · rw [List.mem_singleton.mp here] at tests ⊢
        exact short tests
    by_cases longer : length (GetPattern found) > length (GetPattern pPreset)
    · show FoundLongest GetPattern Test _ (if _ then _ else _)
      rw [if_pos longer]
      exact kept fun _ => longer.le
    · show FoundLongest GetPattern Test _ (if _ then _ else _)
      rw [if_neg longer]
      by_cases tests : Test pPreset = true
      · rw [if_pos tests]
        refine ⟨by simp, tests, fun preset member matching' => ?_⟩
        rcases List.mem_append.mp member with before | here
        · exact (longest preset before matching').trans (not_lt.mp longer)
        · rw [List.mem_singleton.mp here]
      · rw [if_neg tests]
        exact kept fun tests' => absurd tests' tests

theorem find_longest (presets : List Preset) : FoundLongest GetPattern Test presets (FindPersistentPreset GetPattern Test presets) := by
  have run (rest seen : List Preset) (found : Option Preset) (h : FoundLongest GetPattern Test seen found) :
      FoundLongest GetPattern Test (seen ++ rest) (rest.foldl (find_step GetPattern Test) found) := by
    induction rest generalizing seen found with
    | nil => rwa [List.append_nil]
    | cons preset rest ih =>
      rw [List.foldl_cons, List.append_cons]
      exact ih _ _ (find_step_longest h preset)
  exact run presets [] none (by simp [FoundLongest])

end Find

/-! ## What a pattern says -/

def item_of (c : Char) : Item Char := if c = '*' then .run else if c = '?' then .any else .lit c

/-- The pattern as it is meant: a star is any run, a question mark one character and all else itself. -/
def plain (Pattern : QString) : List (Item Char) := Pattern.map item_of

/-- The whole text matches the pattern. -/
def Matches (folding : Folding) (Pattern s : QString) : Bool := matched folding.fold (fun _ => true) (plain Pattern) s

/-- Both branches of `Test` say whether the file name or the command line matches. -/
def Agrees (folding : Folding) (sets : Sets) (Pattern : QString) : Prop :=
  ∀ FileName CommandLine, Test5 folding sets Pattern FileName CommandLine = (Matches folding Pattern FileName || Matches folding Pattern CommandLine) ∧
    Test6 folding Pattern FileName CommandLine = (Matches folding Pattern FileName || Matches folding Pattern CommandLine)

theorem agrees_iff (folding : Folding) (sets : Sets) (Pattern : QString) : Agrees folding sets Pattern ↔
    ∀ s, exactMatch folding sets Pattern s = Matches folding Pattern s ∧ contains folding (ExpStr Pattern) s = Matches folding Pattern s := by
  constructor
  · intro agrees s
    have both := agrees s s
    simpa only [Test5, Test6, Bool.or_self] using both
  · intro each FileName CommandLine
    simp only [Test5, Test6, each, and_self]

theorem item_star : item_of '*' = .run := rfl
theorem item_question : item_of '?' = .any := rfl

theorem item_lit {c : Char} (star : c ≠ '*') (question : c ≠ '?') : item_of c = .lit c := by rw [item_of, if_neg star, if_neg question]

theorem singles_cons (c : Char) (Pattern : QString) : singles (plain (c :: Pattern)) =
    if c = '*' then singles (plain Pattern) else item_of c :: singles (plain Pattern) := by
  by_cases star : c = '*'
  · rw [if_pos star, star]
    rfl
  · rw [if_neg star, singles, plain, List.map_cons, List.filter_cons_of_pos]
    · rfl
    · rw [item_of, if_neg star]
      split_ifs <;> rfl

/-! ## The expression of Qt 6 -/

section Expression

def quote_one (c : Char) : QString := if c = '*' then ".*".toList else if c = '?' then ".".toList else escape_one c

theorem replace_cons {a b x : Char} (after : QString) {s : QString} (apart : x = a → s.head? ≠ some b) :
    replace a b after (x :: s) = x :: replace a b after s := by
  cases s with
  | nil => rfl
  | cons y rest =>
    rw [replace, if_neg]
    rintro ⟨is_a, rfl⟩
    exact apart is_a rfl

theorem replace_here (a b : Char) (after s : QString) : replace a b after (a :: b :: s) = after ++ replace a b after s := by
  rw [replace, if_pos ⟨rfl, rfl⟩]

variable {c : Char}

theorem escape_one_head {d : Char} (h : (escape_one c).head? = some d) : d = '\\' ∨ is_word d = true := by
  unfold escape_one at h
  split_ifs at h with null word
  · exact .inl (by simpa using h.symm)
  · exact .inr (by simpa using (Option.some.inj h) ▸ word)
  · exact .inl (by simpa using h.symm)

theorem flatMap_head {f : Char → QString} {s : QString} {d : Char} (h : (s.flatMap f).head? = some d) : ∃ c ∈ s, (f c).head? = some d := by
  induction s with
  | nil => simp at h
  | cons c rest ih =>
    rw [List.flatMap_cons, List.head?_append] at h
    cases first : (f c).head? with
    | some d' => exact ⟨c, by simp, first.trans (by simpa [first] using h)⟩
    | none =>
      obtain ⟨c', inside, h⟩ := ih (by simpa [first] using h)
      exact ⟨c', by simp [inside], h⟩

theorem replace_escape_one {b : Char} (after : QString) (other : c ≠ b) (not_word : is_word b = false)
    (not_slash : b ≠ '\\') {s : QString} (head : s.head? ≠ some b) :
    replace '\\' b after (escape_one c ++ s) = escape_one c ++ replace '\\' b after s := by
  have zero : ('0' : Char) ≠ b := by
    rintro rfl
    exact absurd not_word (by decide)
  unfold escape_one
  split_ifs with null word
  · show replace '\\' b after ('\\' :: '0' :: s) = _
    rw [replace_cons after fun _ => by simpa using zero, replace_cons after fun slash => absurd slash (by decide)]
    rfl
  · show replace '\\' b after (c :: s) = _
    rw [replace_cons after fun _ => head]
    rfl
  · show replace '\\' b after ('\\' :: c :: s) = _
    rw [replace_cons after fun _ => by simpa using other, replace_cons after fun _ => head]
    rfl

/-- With the stars replaced and the question marks still there. -/
def star_one (c : Char) : QString := if c = '*' then ".*".toList else escape_one c

theorem star_one_head {d : Char} (h : (star_one c).head? = some d) : d = '\\' ∨ d = '.' ∨ is_word d = true := by
  unfold star_one at h
  split_ifs at h with star
  · exact .inr (.inl (by simpa using h.symm))
  · exact (escape_one_head h).imp_right .inr

theorem quote_one_head {d : Char} (h : (quote_one c).head? = some d) : d = '\\' ∨ d = '.' ∨ is_word d = true := by
  unfold quote_one at h
  split_ifs at h with star question
  · exact .inr (.inl (by simpa using h.symm))
  · exact .inr (.inl (by simpa using h.symm))
  · exact (escape_one_head h).imp_right .inr

theorem replaced_stars (Pattern : QString) : replace '\\' '*' ".*".toList (escape Pattern) = Pattern.flatMap star_one := by
  unfold escape
  induction Pattern with
  | nil => rfl
  | cons c rest ih =>
    have head : (rest.flatMap escape_one).head? ≠ some '*' := fun h => by
      obtain ⟨d, -, h⟩ := flatMap_head h
      rcases escape_one_head h with slash | word
      · exact absurd slash (by decide)
      · exact absurd word (by decide)
    rw [List.flatMap_cons, List.flatMap_cons, ← ih]
    by_cases star : c = '*'
    · rw [star, star_one, if_pos rfl]
      exact replace_here '\\' '*' _ _
    · rw [star_one, if_neg star, replace_escape_one _ star (by decide) (by decide) head]

theorem replaced (Pattern : QString) :
    replace '\\' '?' ".".toList (replace '\\' '*' ".*".toList (escape Pattern)) = Pattern.flatMap quote_one := by
  rw [replaced_stars]
  induction Pattern with
  | nil => rfl
  | cons c rest ih =>
    have head : (rest.flatMap star_one).head? ≠ some '?' := fun h => by
      obtain ⟨d, -, h⟩ := flatMap_head h
      rcases star_one_head h with slash | dot | word
      · exact absurd slash (by decide)
      · exact absurd dot (by decide)
      · exact absurd word (by decide)
    rw [List.flatMap_cons, List.flatMap_cons, ← ih]
    by_cases star : c = '*'
    · rw [star, star_one, quote_one, if_pos rfl, if_pos rfl]
      show replace '\\' '?' _ ('.' :: '*' :: _) = _
      rw [replace_cons _ fun slash => absurd slash (by decide), replace_cons _ fun slash => absurd slash (by decide)]
      rfl
    · by_cases question : c = '?'
      · rw [question, star_one, quote_one, if_neg (by decide), if_neg (by decide), if_pos rfl]
        exact replace_here '\\' '?' _ _
      · rw [star_one, quote_one, if_neg star, if_neg star, if_neg question, replace_escape_one _ question (by decide) (by decide) head]

/-! What the expression is read as. -/

theorem read_dot_star (s : QString) : read_regex ('.' :: '*' :: s) = .run :: read_regex s := by
  rw [read_regex, if_neg (by decide), if_pos rfl]
  exact if_pos rfl

theorem read_dot {s : QString} (head : s.head? ≠ some '*') : read_regex ('.' :: s) = .any :: read_regex s := by
  cases s with
  | nil => simp [read_regex]
  | cons d later =>
    rw [read_regex, if_neg (by decide), if_pos rfl]
    exact if_neg fun star => head (by rw [star, List.head?_cons])

theorem read_word (word : is_word c = true) (s : QString) : read_regex (c :: s) = .lit c :: read_regex s := by
  have not_slash : c ≠ '\\' := by
    rintro rfl
    exact absurd word (by decide)
  have not_dot : c ≠ '.' := by
    rintro rfl
    exact absurd word (by decide)
  rw [read_regex.eq_def]
  exact (if_neg not_slash).trans (if_neg not_dot)

theorem read_escaped (not_zero : c ≠ '0') (s : QString) : read_regex ('\\' :: c :: s) = .lit c :: read_regex s := by
  rw [read_regex, if_pos rfl]
  exact if_neg not_zero

theorem read_null (s : QString) : read_regex ('\\' :: '0' :: s) =
    .lit (Char.ofNat (octal_value ((s.take 2).takeWhile is_octal))) :: read_regex (s.drop ((s.take 2).takeWhile is_octal).length) := by
  rw [read_regex, if_pos rfl]
  exact if_pos rfl

theorem octal_plain (octal : is_octal c = true) : quote_one c = [c] ∧ c ≠ '*' ∧ c ≠ '?' := by
  have star : c ≠ '*' := by
    rintro rfl
    exact absurd octal (by decide)
  have question : c ≠ '?' := by
    rintro rfl
    exact absurd octal (by decide)
  have null : c ≠ '\x00' := by
    rintro rfl
    exact absurd octal (by decide)
  have digit : c.isDigit = true := by
    simp only [is_octal, Bool.and_eq_true, decide_eq_true_eq] at octal
    simp only [Char.isDigit, Bool.and_eq_true, decide_eq_true_eq]
    exact ⟨octal.1, UInt32.le_trans octal.2 (by decide)⟩
  refine ⟨?_, star, question⟩
  rw [quote_one, if_neg star, if_neg question, escape_one, if_neg null, if_pos (by simp [is_word, Char.isAlphanum, digit])]

theorem quote_one_octal {d : Char} (h : (quote_one c).head? = some d) (octal : is_octal d = true) :
    is_octal c = true := by
  unfold quote_one escape_one at h
  split_ifs at h with star question null word
  · exact absurd (Option.some.inj h ▸ octal) (by decide)
  · exact absurd (Option.some.inj h ▸ octal) (by decide)
  · exact absurd (Option.some.inj h ▸ octal) (by decide)
  · exact Option.some.inj h ▸ octal
  · exact absurd (Option.some.inj h ▸ octal) (by decide)

theorem octal_digits (n : Nat) (Pattern : QString) : ((Pattern.flatMap quote_one ++ ".*".toList).take n).takeWhile is_octal = (Pattern.take n).takeWhile is_octal ∧
    (Pattern.flatMap quote_one ++ ".*".toList).drop ((Pattern.take n).takeWhile is_octal).length =
      (Pattern.drop ((Pattern.take n).takeWhile is_octal).length).flatMap quote_one ++ ".*".toList := by
  induction n generalizing Pattern with
  | zero => simp
  | succ n ih =>
    cases Pattern with
    | nil => exact ⟨rfl, rfl⟩
    | cons c rest =>
      rw [List.flatMap_cons]
      by_cases octal : is_octal c = true
      · obtain ⟨digits, dropped⟩ := ih rest
        rw [(octal_plain octal).1, List.append_assoc, List.singleton_append, List.take_succ_cons, List.take_succ_cons,
          List.takeWhile_cons_of_pos octal, List.takeWhile_cons_of_pos octal, digits, List.length_cons, List.drop_succ_cons, List.drop_succ_cons]
        exact ⟨rfl, dropped⟩
      · rw [List.take_succ_cons, List.takeWhile_cons_of_neg octal]
        refine ⟨?_, rfl⟩
        cases first : quote_one c with
        | nil =>
          unfold quote_one escape_one at first
          split_ifs at first
          · exact absurd first (by decide)
          · exact absurd first (by decide)
        | cons d later =>
          have not_octal : ¬ is_octal d = true := fun is_octal => octal (quote_one_octal (by rw [first, List.head?_cons]) is_octal)
          rw [List.cons_append, List.cons_append, List.take_succ_cons, List.takeWhile_cons_of_neg not_octal]

/-- No character zero in front of an octal digit, which would be read with it. -/
def NoOctal (Pattern : QString) : Prop := ∀ d, is_octal d = true → ¬ ['\x00', d] <:+: Pattern

theorem quote_read (null : c ≠ '\x00') {s : QString} (head : s.head? ≠ some '*') :
    read_regex (quote_one c ++ s) = item_of c :: read_regex s := by
  unfold quote_one escape_one item_of
  split_ifs with star question word
  · exact read_dot_star s
  · exact read_dot head
  · exact read_word word s
  · refine read_escaped ?_ s
    rintro rfl
    exact word (by decide)

theorem quoted_head (Pattern : QString) : (Pattern.flatMap quote_one ++ ".*".toList).head? ≠ some '*' := by
  intro h
  rw [List.head?_append] at h
  cases first : (Pattern.flatMap quote_one).head? with
  | none => simp [first] at h
  | some d =>
    obtain rfl : d = '*' := by simpa [first] using h
    obtain ⟨c, -, head⟩ := flatMap_head first
    rcases quote_one_head head with slash | dot | word
    · exact absurd slash (by decide)
    · exact absurd dot (by decide)
    · exact absurd word (by decide)

theorem null_read (Pattern : QString) : read_regex (quote_one '\x00' ++ (Pattern.flatMap quote_one ++ ".*".toList)) =
    .lit (Char.ofNat (octal_value ((Pattern.take 2).takeWhile is_octal))) ::
      read_regex ((Pattern.drop ((Pattern.take 2).takeWhile is_octal).length).flatMap quote_one ++ ".*".toList) := by
  have e := read_null (Pattern.flatMap quote_one ++ ".*".toList)
  rw [(octal_digits 2 Pattern).1, (octal_digits 2 Pattern).2] at e
  exact e

theorem quoted_read {Pattern : QString} (no_octal : NoOctal Pattern) :
    read_regex (Pattern.flatMap quote_one ++ ".*".toList) = plain Pattern ++ [.run] := by
  induction Pattern with
  | nil =>
    show read_regex ['.', '*'] = _
    rw [read_dot_star, read_regex]
    rfl
  | cons c rest ih =>
    have later : NoOctal rest := fun d octal inside => no_octal d octal (inside.trans (List.infix_cons List.infix_rfl))
    rw [List.flatMap_cons, List.append_assoc, plain, List.map_cons, List.cons_append]
    by_cases null : c = '\x00'
    · subst null
      have no_digits : (rest.take 2).takeWhile is_octal = [] := by
        cases rest with
        | nil => rfl
        | cons d rest =>
          refine List.takeWhile_cons_of_neg fun octal => no_octal d octal ?_
          exact (List.prefix_append ['\x00', d] rest).isInfix
      rw [null_read, no_digits]
      exact congrArg _ (ih later)
    · rw [quote_read null (quoted_head rest), ih later]
      rfl

theorem singles_octal {digits : QString} (octal : ∀ d ∈ digits, is_octal d = true) (rest : QString) :
    (singles (plain (digits ++ rest))).length = digits.length + (singles (plain rest)).length := by
  induction digits with
  | nil => simp
  | cons d digits ih =>
    rw [List.cons_append, singles_cons, if_neg (octal_plain (octal d (by simp))).2.1, List.length_cons, List.length_cons,
      ih fun d' member => octal d' (by simp [member])]
    omega

theorem noOctal_cons {rest : QString} (later : NoOctal rest)
    (here : c = '\x00' → ∀ d, rest.head? = some d → is_octal d = false) : NoOctal (c :: rest) := by
  intro d octal inside
  rcases List.infix_cons_iff.mp inside with start | inside
  · obtain ⟨rfl, after⟩ := List.cons_prefix_cons.mp start
    obtain ⟨more, rfl⟩ := after
    rw [here rfl d rfl] at octal
    exact Bool.false_ne_true octal
  · exact later d octal inside

theorem quoted_short (Pattern : QString) : (singles (read_regex (Pattern.flatMap quote_one ++ ".*".toList))).length ≤ (singles (plain Pattern)).length ∧
    (¬ NoOctal Pattern → (singles (read_regex (Pattern.flatMap quote_one ++ ".*".toList))).length < (singles (plain Pattern)).length) := by
  induction size : Pattern.length using Nat.strong_induction_on generalizing Pattern with
  | _ n ih =>
    cases Pattern with
    | nil =>
      refine ⟨?_, fun octal => absurd (fun d _ inside => by simp at inside) octal⟩
      show (singles (read_regex ['.', '*'])).length ≤ _
      rw [read_dot_star, read_regex]
      rfl
    | cons c rest =>
      rw [List.length_cons] at size
      rw [List.flatMap_cons, List.append_assoc, singles_cons]
      by_cases null : c = '\x00'
      · subst null
        obtain ⟨digits, is_digits⟩ : ∃ digits, digits = (rest.take 2).takeWhile is_octal := ⟨_, rfl⟩
        have octal (d : Char) (member : d ∈ digits) : is_octal d = true := List.mem_takeWhile_imp (is_digits ▸ member)
        have split : digits ++ rest.drop digits.length = rest := by
          have start : digits <+: rest := is_digits ▸ (List.takeWhile_prefix _).trans (List.take_prefix 2 rest)
          obtain ⟨more, rfl⟩ := start
          rw [List.drop_left]
        obtain ⟨few, fewer⟩ := ih (rest.drop digits.length).length (by rw [List.length_drop]; omega) (rest.drop digits.length) rfl
        have counts := singles_octal octal (rest.drop digits.length)
        rw [split] at counts
        rw [null_read, ← is_digits, if_neg (by decide), item_lit (by decide) (by decide)]
        show (singles _).length + 1 ≤ _ ∧ (_ → (singles _).length + 1 < _)
        rw [List.length_cons]
        refine ⟨by omega, fun octal_there => ?_⟩
        cases first : digits with
        | nil =>
          rw [first, List.length_nil, List.drop_zero] at fewer
          have there : ¬ NoOctal rest := fun later => octal_there (noOctal_cons later fun _ d head => by
            cases rest with
            | nil => simp at head
            | cons d' rest =>
              obtain rfl : d' = d := by simpa using head
              by_contra digit
              rw [List.take_succ_cons, List.takeWhile_cons_of_pos (by simpa using digit)] at is_digits
              exact List.cons_ne_nil _ _ (is_digits.symm.trans first))
          have := fewer there
          simp only [List.length_nil, List.drop_zero]
          omega
        | cons d digits =>
          rw [first, List.length_cons] at counts few
          rw [List.length_cons]
          omega
      · obtain ⟨few, fewer⟩ := ih rest.length (by omega) rest rfl
        have there (octal : ¬ NoOctal (c :: rest)) : ¬ NoOctal rest := fun later => octal (noOctal_cons later fun is_null => absurd is_null null)
        rw [quote_read null (quoted_head rest)]
        by_cases star : c = '*'
        · have form : item_of c = .run := by rw [star, item_star]
          rw [if_pos star, form]
          exact ⟨few, fun octal => fewer (there octal)⟩
        · have form : singles (item_of c :: read_regex (rest.flatMap quote_one ++ ".*".toList)) =
              item_of c :: singles (read_regex (rest.flatMap quote_one ++ ".*".toList)) := by
            refine List.filter_cons_of_pos ?_
            rw [item_of, if_neg star]
            split_ifs <;> rfl
          rw [if_neg star, form, List.length_cons, List.length_cons]
          exact ⟨Nat.succ_le_succ few, fun octal => Nat.succ_lt_succ (fewer (there octal))⟩

theorem expression (Pattern : QString) : read_regex (ExpStr Pattern) = .run :: read_regex (Pattern.flatMap quote_one ++ ".*".toList) := by
  rw [ExpStr, replaced, List.append_assoc]
  exact read_dot_star _

theorem contains_plain (folding : Folding) {Pattern : QString} (no_octal : NoOctal Pattern) (s : QString) :
    contains folding (ExpStr Pattern) s = true ↔ contained folding.fold (· != '\n') (plain Pattern) s = true := by
  rw [contains, expression, quoted_read no_octal]
  exact contained_runs (plain Pattern) s

end Expression

/-! ## A name for every pattern -/

section Names
variable (folding : Folding) {dot : Char → Bool}

/-- The pattern without its stars, and with one character for all question marks. -/
def name_of (any : Char) (Pattern : QString) : QString := (Pattern.filter (· ≠ '*')).map fun c => if c = '?' then any else c

theorem name_cons (any c : Char) (Pattern : QString) : name_of any (c :: Pattern) =
    if c = '*' then name_of any Pattern else (if c = '?' then any else c) :: name_of any Pattern := by
  by_cases star : c = '*'
  · simp [name_of, star]
  · simp [name_of, star]

/-- What the single items of a pattern take, one by one. -/
def Takes (folding : Folding) (dot : Char → Bool) (items : List (Item Char)) (s : QString) : Prop :=
  List.Forall₂ (fun item x => one folding.fold dot item x = true) (singles items) s

theorem takes_name {any : Char} {Pattern : QString} (any_fits : '?' ∈ Pattern → dot any = true) :
    Takes folding dot (plain Pattern) (name_of any Pattern) := by
  unfold Takes
  induction Pattern with
  | nil => exact .nil
  | cons c rest ih =>
    have later := ih fun member => any_fits (List.mem_cons_of_mem c member)
    rw [singles_cons, name_cons]
    split_ifs with star question
    · exact later
    · refine .cons ?_ later
      rw [question, item_question]
      exact any_fits (by simp [question])
    · refine .cons ?_ later
      rw [item_lit star question]
      exact beq_self_eq_true _

theorem matches_name (any : Char) (Pattern : QString) : Matches folding Pattern (name_of any Pattern) = true :=
  matched_of_singles _ (takes_name folding fun _ => rfl)

theorem name_length (any : Char) (Pattern : QString) : (name_of any Pattern).length = (singles (plain Pattern)).length := by
  induction Pattern with
  | nil => rfl
  | cons c rest ih =>
    rw [singles_cons, name_cons]
    split_ifs
    · exact ih
    · exact congrArg (· + 1) ih
    · exact congrArg (· + 1) ih

theorem as_many (dot : Char → Bool) (items : List (Item Char)) {Pattern : QString} {accepts : QString → Bool} (same : ∀ s, accepts s = Matches folding Pattern s)
    (takes : ∀ s, accepts s = true → ∃ taken, List.Sublist taken s ∧ Takes folding dot items taken)
    (accepted : ∀ s, Takes folding dot items s → accepts s = true) :
    ∃ taken taken', Takes folding dot items taken ∧ List.Sublist taken' taken ∧ Takes folding (fun _ => true) (plain Pattern) taken' := by
  obtain ⟨taken, -, all⟩ := takes (name_of 'a' Pattern) ((same _).trans (matches_name folding 'a' Pattern))
  obtain ⟨taken', inside, all'⟩ := singles_of_matched (plain Pattern) ((same taken).symm.trans (accepted taken all))
  exact ⟨taken, taken', all, inside, all'⟩

end Names

/-! ## Where the expression of Qt 6 says the same -/

section Expressions
variable {folding : Folding} {Pattern : QString}

theorem noOctal_needed (same : ∀ s, contains folding (ExpStr Pattern) s = Matches folding Pattern s) : NoOctal Pattern := by
  by_contra octal
  have fewer := (quoted_short Pattern).2 octal
  obtain ⟨taken, taken', all, inside, all'⟩ := as_many folding (· != '\n') (read_regex (ExpStr Pattern)) same
    (fun s h => by
      obtain ⟨before, here, after, rfl, matching⟩ := (contained_iff _ _).mp h
      obtain ⟨taken, inside, all⟩ := singles_of_matched _ matching
      exact ⟨taken, inside.trans ((List.sublist_append_right before here).trans (List.sublist_append_left _ after)), all⟩)
    fun s all => contained_of_matched (matched_of_singles _ all)
  have size := all.length_eq
  have size' := all'.length_eq
  have short := inside.length_le
  rw [expression] at size
  have form : singles (.run :: read_regex (Pattern.flatMap quote_one ++ ".*".toList)) = singles (read_regex (Pattern.flatMap quote_one ++ ".*".toList)) := rfl
  rw [form] at size
  omega

theorem question_free (folding : Folding) (h : Takes folding (· != '\n') (plain Pattern) (name_of '\n' Pattern)) : '?' ∉ Pattern := by
  induction Pattern with
  | nil => simp
  | cons c rest ih =>
    unfold Takes at h ih
    rw [singles_cons, name_cons] at h
    split_ifs at h with star question
    · simpa [star] using ih h
    · cases h with
      | cons takes later =>
        rw [question, item_question] at takes
        exact absurd takes (by simp [one])
    · cases h with
      | cons takes later =>
        intro member
        rcases List.mem_cons.mp member with is_question | inside
        · exact question is_question.symm
        · exact ih later inside

theorem no_question_needed (same : ∀ s, contained folding.fold (· != '\n') (plain Pattern) s = Matches folding Pattern s) : '?' ∉ Pattern :=
  question_free folding (singles_of_contained ((same _).trans (matches_name folding '\n' Pattern)) (name_length '\n' Pattern).le)

theorem plain_append (Pattern Pattern' : QString) : plain (Pattern ++ Pattern') = plain Pattern ++ plain Pattern' := List.map_append

theorem contains_name (no_question : '?' ∉ Pattern) (before after : QString) :
    contained folding.fold (· != '\n') (plain Pattern) (before ++ name_of 'a' Pattern ++ after) = true :=
  (contained_iff _ _).mpr ⟨before, _, after, rfl, matched_of_singles _ (takes_name folding fun member => absurd member no_question)⟩

theorem star_first (same : ∀ s, contained folding.fold (· != '\n') (plain Pattern) s = Matches folding Pattern s) (no_question : '?' ∉ Pattern) :
    Pattern.head? = some '*' := by
  have found := (same _).symm.trans (contains_name no_question ['*'] [])
  cases Pattern with
  | nil => exact absurd found (by simp [Matches, plain, matched, name_of])
  | cons c rest =>
    by_contra star
    have not_star : c ≠ '*' := fun is_star => star (by rw [is_star, List.head?_cons])
    have form : plain (c :: rest) = .lit c :: plain rest := by
      rw [plain, List.map_cons, item_lit not_star fun is_question => no_question (by simp [is_question])]
      rfl
    rw [Matches, form] at found
    obtain ⟨x, later, text, takes, -⟩ := (matched_single rfl _ _).mp found
    obtain rfl : '*' = x := (List.cons.inj text).1
    exact not_star (folding.alone '*' c (by decide) (by decide) (by simpa using (beq_iff_eq.mp takes).symm))

theorem star_last (same : ∀ s, contained folding.fold (· != '\n') (plain Pattern) s = Matches folding Pattern s) (no_question : '?' ∉ Pattern) :
    Pattern.getLast? = some '*' := by
  have found := (same _).symm.trans (contains_name no_question [] ['*'])
  rcases List.eq_nil_or_concat Pattern with rfl | ⟨rest, c, rfl⟩
  · exact absurd found (by simp [Matches, plain, matched, name_of])
  · by_contra star
    have not_star : c ≠ '*' := fun is_star => star (by simp [is_star])
    have form : plain (rest ++ [c]) = plain rest ++ [.lit c] := by
      rw [plain_append, plain, plain, List.map_singleton, item_lit not_star fun is_question => no_question (by simp [is_question])]
    rw [List.concat_eq_append, Matches, form] at found
    obtain ⟨here, _, text, -, found⟩ := (matched_append _ _ _).mp found
    obtain ⟨x, later, rfl, takes, found⟩ := (matched_single rfl _ _).mp found
    obtain rfl := List.isEmpty_iff.mp found
    obtain rfl : '*' = x := by
      have e := congrArg List.getLast? text
      simpa using e
    exact not_star (folding.alone '*' c (by decide) (by decide) (by simpa using (beq_iff_eq.mp takes).symm))

/-! Between its stars a pattern has parts. -/

def is_star (c : Char) : Bool := c == '*'

def parts (Pattern : QString) : List QString := words is_star Pattern

/-- The parts that are something else than a line feed. -/
def other_parts (Pattern : QString) : List QString := (parts Pattern).filter fun part => part ≠ ['\n']

theorem parts_solid (Pattern : QString) : Solid '*' (parts Pattern) := fun part member =>
  ⟨(mem_words member).1, fun inside => by simpa [is_star] using (mem_words member).2 '*' inside⟩

theorem matched_lits {dot : Char → Bool} {part : QString} (star : '*' ∉ part) (question : '?' ∉ part) (s : QString) :
    matched folding.fold dot (plain part) s = true ↔ s.map folding.fold = part.map folding.fold := by
  induction part generalizing s with
  | nil => simp [plain, matched]
  | cons c part ih =>
    rw [List.mem_cons, not_or] at star question
    have form : plain (c :: part) = .lit c :: plain part := by
      rw [plain, List.map_cons, item_lit (Ne.symm star.1) (Ne.symm question.1)]
      rfl
    rw [form, matched_single rfl]
    constructor
    · rintro ⟨x, later, rfl, takes, rest⟩
      rw [List.map_cons, List.map_cons, (ih star.2 question.2 later).mp rest, beq_iff_eq.mp takes]
    · intro e
      cases s with
      | nil => simp at e
      | cons x later =>
        rw [List.map_cons, List.map_cons, List.cons.injEq] at e
        exact ⟨x, later, rfl, beq_iff_eq.mpr e.1, (ih star.2 question.2 later).mpr e.2⟩

theorem ends_behind (before rest : QString) (last : (before ++ '*' :: rest).getLast? = some '*') : rest = [] ∨ rest.getLast? = some '*' := by
  rcases List.eq_nil_or_concat rest with rfl | ⟨rest, c, rfl⟩
  · exact .inl rfl
  · rw [List.concat_eq_append, ← List.cons_append, ← List.append_assoc, List.getLast?_concat] at last
    exact .inr (by rw [List.concat_eq_append, List.getLast?_concat, last])

theorem matched_parts {dot : Char → Bool} (question : '?' ∉ Pattern) (last : Pattern = [] ∨ Pattern.getLast? = some '*') (s : QString) :
    matched folding.fold dot (.run :: plain Pattern) s = true ↔ Spread folding.fold (dot · = true) (parts Pattern) s := by
  induction size : Pattern.length using Nat.strong_induction_on generalizing Pattern s with
  | _ n ih =>
    by_cases some_star : '*' ∈ Pattern
    · obtain ⟨part, rest, rfl, star⟩ := List.eq_append_cons_of_mem some_star
      have last' : rest = [] ∨ rest.getLast? = some '*' := ends_behind part rest (last.resolve_left (by simp))
      have question' : '?' ∉ rest := fun member => question (by simp [member])
      have later (s : QString) := ih rest.length (by rw [← size, List.length_append, List.length_cons]; omega) question' last' s rfl
      have form : plain (part ++ '*' :: rest) = plain part ++ .run :: plain rest := plain_append _ _
      rw [form]
      cases part with
      | nil =>
        have none : parts ([] ++ '*' :: rest) = parts rest := words_cons rest rfl
        rw [none, ← later s]
        exact matched_run_run (plain rest) s
      | cons c part =>
        have word : Word is_star (c :: part) := ⟨List.cons_ne_nil _ _, fun d member => by
          rw [is_star, beq_eq_false_iff_ne]
          rintro rfl
          exact star member⟩
        have first : parts ((c :: part) ++ '*' :: rest) = (c :: part) :: parts rest := words_word_append word rest rfl
        rw [first, matched_run]
        simp only [Spread, matched_append, later, matched_lits star fun member => question (List.mem_append_left _ member)]
        constructor
        · rintro ⟨gap, _, rfl, all, here, more, rfl, same, spread⟩
          exact ⟨gap, here, more, by rw [List.append_assoc], all, same, spread⟩
        · rintro ⟨gap, here, more, rfl, all, same, spread⟩
          exact ⟨gap, here ++ more, by rw [List.append_assoc], all, here, more, rfl, same, spread⟩
    · have nothing : Pattern = [] := last.resolve_right fun is_last => some_star (List.mem_of_getLast? is_last)
      subst nothing
      show after_run dot (matched folding.fold dot []) s = true ↔ ∀ c ∈ s, dot c = true
      rw [after_run_iff]
      constructor
      · rintro ⟨gap, later, rfl, all, nothing⟩
        rw [List.isEmpty_iff.mp nothing, List.append_nil]
        exact all
      · intro all
        exact ⟨s, [], by simp, all, rfl⟩

/-- The pattern from one star to another. -/
structure Enclosed (Pattern : QString) : Prop where
  first : Pattern.head? = some '*'
  last : Pattern.getLast? = some '*'
  no_question : '?' ∉ Pattern

theorem Enclosed.matched_iff (enclosed : Enclosed Pattern) {dot : Char → Bool} (s : QString) :
    matched folding.fold dot (plain Pattern) s = true ↔ Spread folding.fold (dot · = true) (parts Pattern) s := by
  obtain ⟨first, last, question⟩ := enclosed
  cases Pattern with
  | nil => simp at first
  | cons c rest =>
    obtain rfl : c = '*' := by simpa using first
    have none : parts ('*' :: rest) = parts rest := words_cons rest rfl
    have last' : rest = [] ∨ rest.getLast? = some '*' := ends_behind [] rest last
    rw [none]
    exact matched_parts (fun member => question (List.mem_cons_of_mem _ member)) last' s

theorem spread_behind (l : List QString) : Spread folding.fold (fun _ => True) l (l.flatMap (· ++ ['*'])) := by
  induction l with
  | nil => exact fun _ _ => trivial
  | cons part rest ih =>
    rw [List.flatMap_cons]
    exact ⟨[], part, ['*'] ++ rest.flatMap (· ++ ['*']), by simp, by simp, rfl, ih.prepend ['*'] fun _ _ => trivial⟩

theorem spread_before (l : List QString) : Spread folding.fold (fun _ => True) l (l.flatMap ('*' :: ·)) := by
  induction l with
  | nil => exact fun _ _ => trivial
  | cons part rest ih => exact ⟨['*'], part, rest.flatMap ('*' :: ·), by simp, by simp, rfl, ih⟩

theorem two_apart {l : List QString} {x : QString} (two : 1 < (l.filter fun part => part ≠ x).length) :
    ∃ before after, l = before ++ after ∧ (∃ part ∈ before, part ≠ x) ∧ ∃ part ∈ after, part ≠ x := by
  induction l with
  | nil => simp at two
  | cons part rest ih =>
    by_cases other : part = x
    · obtain ⟨before, after, rfl, ⟨p, inside, differs⟩, behind⟩ := ih (by simpa [other] using two)
      exact ⟨part :: before, after, rfl, ⟨p, List.mem_cons_of_mem _ inside, differs⟩, behind⟩
    · have some_more : 0 < (rest.filter fun part => part ≠ x).length := by simpa [other] using two
      obtain ⟨p, member⟩ := List.exists_mem_of_length_pos some_more
      obtain ⟨inside, differs⟩ := List.mem_filter.mp member
      exact ⟨[part], rest, rfl, ⟨part, by simp, other⟩, p, inside, by simpa using differs⟩

theorem at_most_one {l : List QString} {x : QString} (one : (l.filter fun part => part ≠ x).length ≤ 1) :
    l = [] ∨ ∃ i part j, l = List.replicate i x ++ part :: List.replicate j x := by
  induction l with
  | nil => exact .inl rfl
  | cons part rest ih =>
    by_cases other : part = x
    · rcases ih (by simpa [other] using one) with rfl | ⟨i, p, j, rfl⟩
      · exact .inr ⟨0, part, 0, rfl⟩
      · exact .inr ⟨i + 1, p, j, by rw [other, List.replicate_succ, List.cons_append]⟩
    · have none : rest.filter (fun part => part ≠ x) = [] := by simpa [other] using one
      have all : rest = List.replicate rest.length x := List.eq_replicate_of_mem fun p inside => by
        simpa using List.filter_eq_nil_iff.mp none p inside
      exact .inr ⟨0, part, rest.length, congrArg (part :: ·) all⟩

theorem br_alone (c : Char) (same : folding.fold c = folding.fold '\n') : c = '\n' := folding.alone '\n' c (by decide) (by decide) same
theorem star_alone (c : Char) (same : folding.fold c = folding.fold '*') : c = '*' := folding.alone '*' c (by decide) (by decide) same

theorem contained_parts (enclosed : Enclosed Pattern) (s : QString) : contained folding.fold (· != '\n') (plain Pattern) s = true ↔
    ∃ before here after, s = before ++ here ++ after ∧ Spread folding.fold (· ≠ '\n') (parts Pattern) here := by
  rw [contained_iff]
  simp only [enclosed.matched_iff, bne_iff_ne]

theorem matches_parts (enclosed : Enclosed Pattern) (s : QString) :
    Matches folding Pattern s = true ↔ Spread folding.fold (fun _ => True) (parts Pattern) s := by
  rw [Matches, enclosed.matched_iff]
  simp

theorem enclosed_iff (enclosed : Enclosed Pattern) :
    (∀ s, contained folding.fold (· != '\n') (plain Pattern) s = Matches folding Pattern s) ↔ (other_parts Pattern).length ≤ 1 := by
  constructor
  · intro same
    by_contra two
    obtain ⟨before, after, split, ⟨p, inside, differs⟩, q, inside', differs'⟩ := two_apart (not_le.mp two)
    have spread : Spread folding.fold (fun _ => True) (parts Pattern) (before.flatMap (· ++ ['*']) ++ ('\n' :: after.flatMap ('*' :: ·))) := by
      rw [split]
      exact (spread_behind before).append ((spread_before after).prepend ['\n'] fun _ _ => trivial)
    have found := (same _).trans ((matches_parts enclosed _).mpr spread)
    obtain ⟨left, here, right, text, tight⟩ := (contained_parts enclosed _).mp found
    rw [split] at tight
    rcases breaks_aside star_alone br_alone (by decide) (split ▸ parts_solid Pattern) text.symm tight with all | all
    · exact differs (all p inside)
    · exact differs' (all q inside')
  · intro few s
    rw [Bool.eq_iff_iff, contained_parts enclosed, matches_parts enclosed]
    constructor
    · rintro ⟨before, here, after, rfl, spread⟩
      have anywhere : Spread folding.fold (fun _ => True) (parts Pattern) here := spread.mono fun _ _ => trivial
      have nothing : Spread folding.fold (fun _ => True) [] after := fun _ _ => trivial
      have whole := (anywhere.prepend before fun _ _ => trivial).append nothing
      rwa [List.append_nil] at whole
    · intro spread
      rcases at_most_one few with none | ⟨i, part, j, form⟩
      · exact ⟨[], [], s, rfl, by rw [none]; exact fun c member => by simp at member⟩
      · rw [form] at spread ⊢
        exact breaks_around br_alone i j part spread

end Expressions

/-! ## Where the wildcard of Qt 5 says the same -/

section Wildcard
variable {folding : Folding} {sets : Sets} {Pattern : QString}

/-- No set, and no backslash in front of what it would take the meaning from. -/
structure Unescaped (Pattern : QString) : Prop where
  no_bracket : '[' ∉ Pattern
  no_escape : ∀ d, d = '*' ∨ d = ']' → ¬ ['\\', d] <:+: Pattern

theorem Unescaped.tail {c : Char} {rest : QString} (plain_text : Unescaped (c :: rest)) : Unescaped rest :=
  ⟨fun member => plain_text.no_bracket (List.mem_cons_of_mem c member),
    fun d special inside => plain_text.no_escape d special (inside.trans (List.infix_cons List.infix_rfl))⟩

theorem unescaped_cons {c : Char} {rest : QString} (later : Unescaped rest) (bracket : c ≠ '[')
    (here : c = '\\' → ∀ d, rest.head? = some d → ¬ (d = '*' ∨ d = ']')) : Unescaped (c :: rest) := by
  refine ⟨fun member => ?_, fun d special inside => ?_⟩
  · rcases List.mem_cons.mp member with is_bracket | inside
    · exact bracket is_bracket.symm
    · exact later.no_bracket inside
  · rcases List.infix_cons_iff.mp inside with start | inside
    · obtain ⟨rfl, more, rfl⟩ := List.cons_prefix_cons.mp start
      exact here rfl d rfl special
    · exact later.no_escape d special inside

theorem wildcard_plain (unescaped : Unescaped Pattern) (no_question : '?' ∉ Pattern) : wildcard_unix sets Pattern = some (plain Pattern) := by
  induction Pattern with
  | nil => rw [wildcard_unix]; rfl
  | cons c rest ih =>
    have later := ih unescaped.tail fun member => no_question (List.mem_cons_of_mem c member)
    have question : c ≠ '?' := fun is_question => no_question (by simp [is_question])
    have bracket : c ≠ '[' := fun is_bracket => unescaped.no_bracket (by simp [is_bracket])
    have form : plain (c :: rest) = item_of c :: plain rest := rfl
    rw [wildcard_unix.eq_def, form]
    by_cases slash : c = '\\'
    · subst slash
      cases rest with
      | nil => rfl
      | cons d rest =>
        have not_special : ¬ (d = '*' ∨ d = '?' ∨ d = '[' ∨ d = ']') := by
          rintro (star | is_question | is_bracket | close)
          · exact unescaped.no_escape d (.inl star) (List.prefix_append ['\\', d] rest).isInfix
          · exact no_question (by simp [is_question])
          · exact unescaped.no_bracket (by simp [is_bracket])
          · exact unescaped.no_escape d (.inr close) (List.prefix_append ['\\', d] rest).isInfix
        simp only [if_true, if_neg not_special, later, Option.map_some]
        rfl
    · by_cases star : c = '*'
      · simp only [if_neg slash, if_pos star, later, Option.map_some]
        rw [star, item_star]
      · simp only [if_neg slash, if_neg star, if_neg question, if_neg bracket, later, Option.map_some]
        rw [item_lit star question]

theorem singles_append (Pattern Pattern' : QString) : singles (plain (Pattern ++ Pattern')) = singles (plain Pattern) ++ singles (plain Pattern') := by
  rw [plain_append, singles, List.filter_append]
  rfl

/-- As many single items as are meant at most, and what takes the same characters has no set and no escape. -/
structure Few (folding : Folding) (items : List (Item Char)) (Pattern : QString) : Prop where
  few : (singles items).length ≤ (singles (plain Pattern)).length
  same : ∀ taken, Takes folding (fun _ => true) items taken → Takes folding (fun _ => true) (plain Pattern) taken → Unescaped Pattern

variable {items : List (Item Char)}

theorem few_shorter (shorter : (singles items).length < (singles (plain Pattern)).length) : Few folding items Pattern :=
  ⟨shorter.le, fun taken takes takes' => by
    have size := takes.length_eq
    have size' := takes'.length_eq
    omega⟩

theorem few_run {rest : QString} (h : Few folding items rest) : Few folding (.run :: items) ('*' :: rest) :=
  ⟨h.few, fun taken takes takes' => unescaped_cons (h.same taken takes takes') (by decide) fun slash => absurd slash (by decide)⟩

theorem few_single {c : Char} {rest : QString} (h : Few folding items rest) (star : c ≠ '*')
    (bracket : c ≠ '[') (here : c = '\\' → ∀ d, rest.head? = some d → ¬ (d = '*' ∨ d = ']')) :
    Few folding (item_of c :: items) (c :: rest) := by
  have single : (item_of c).isRun = false := by
    rw [item_of, if_neg star]
    split_ifs <;> rfl
  have form : singles (item_of c :: items) = item_of c :: singles items := List.filter_cons_of_pos (by rw [single]; rfl)
  have form' : singles (plain (c :: rest)) = item_of c :: singles (plain rest) := by rw [singles_cons, if_neg star]
  refine ⟨by rw [form, form']; exact Nat.succ_le_succ h.few, fun taken takes takes' => ?_⟩
  unfold Takes at takes takes'
  rw [form] at takes
  rw [form'] at takes'
  cases takes with
  | cons _ later =>
    cases takes' with
    | cons _ later' => exact unescaped_cons (h.same _ later later') bracket here

theorem wildcard_few (folding : Folding) (is_items : wildcard_unix sets Pattern = some items) :
    Few folding items Pattern := by
  induction size : Pattern.length using Nat.strong_induction_on generalizing Pattern items with
  | _ n ih =>
    cases Pattern with
    | nil =>
      rw [wildcard_unix, Option.some.injEq] at is_items
      subst is_items
      exact ⟨le_refl _, fun _ _ _ => ⟨by simp, by simp⟩⟩
    | cons c rest =>
      rw [List.length_cons] at size
      rw [wildcard_unix.eq_def] at is_items
      by_cases slash : c = '\\'
      · subst slash
        cases rest with
        | nil =>
          simp only [if_true, Option.some.injEq] at is_items
          subst is_items
          have nothing : Few folding [] [] := ⟨le_refl _, fun _ _ _ => ⟨by simp, by simp⟩⟩
          exact few_single (c := '\\') nothing (by decide) (by decide) (by simp)
        | cons d later =>
          rw [List.length_cons] at size
          by_cases special : d = '*' ∨ d = '?' ∨ d = '[' ∨ d = ']'
          · simp only [if_true, if_pos special, Option.map_eq_some_iff] at is_items
            obtain ⟨more, is_more, rfl⟩ := is_items
            have h := ih later.length (by omega) is_more rfl
            have form : singles (.lit d :: more) = .lit d :: singles more := rfl
            have form' : singles (plain ('\\' :: d :: later)) = .lit '\\' :: singles (plain (d :: later)) := rfl
            by_cases star : d = '*'
            · -- as many characters, but another one
              subst star
              refine ⟨by rw [form, form']; exact Nat.succ_le_succ h.few, fun taken takes takes' => ?_⟩
              unfold Takes at takes takes'
              rw [form] at takes
              rw [form'] at takes'
              cases takes with
              | cons here _ =>
                cases takes' with
                | cons here' _ =>
                  have is_slash := folding.alone '\\' '*' (by decide) (by decide) ((beq_iff_eq.mp here).symm.trans (beq_iff_eq.mp here'))
                  exact absurd is_slash (by decide)
            · refine few_shorter ?_
              rw [form, form', singles_cons, if_neg star, List.length_cons, List.length_cons, List.length_cons]
              have := h.few
              omega
          · simp only [if_true, if_neg special, Option.map_eq_some_iff] at is_items
            obtain ⟨more, is_more, rfl⟩ := is_items
            have h := ih (d :: later).length (by rw [List.length_cons]; omega) is_more rfl
            refine few_single (c := '\\') h (by decide) (by decide) fun _ d' is_head => ?_
            obtain rfl : d = d' := by simpa using is_head
            exact fun either => special (either.imp id fun close => .inr (.inr close))
      · simp only [if_neg slash] at is_items
        split_ifs at is_items with star question bracket
        · obtain ⟨more, is_more, rfl⟩ := Option.map_eq_some_iff.mp is_items
          rw [star]
          exact few_run (ih rest.length (by omega) is_more rfl)
        · obtain ⟨more, is_more, rfl⟩ := Option.map_eq_some_iff.mp is_items
          have h := few_single (ih rest.length (by omega) is_more rfl) star (by rw [question]; decide) fun is_slash => absurd is_slash slash
          rwa [question, item_question, ← question] at h
        · split at is_items
          · exact absurd is_items (by simp)
          · next members later is_read =>
            obtain ⟨more, is_more, rfl⟩ := Option.map_eq_some_iff.mp is_items
            obtain ⟨inner, rfl⟩ := sets.ends is_read
            rw [List.length_append, List.length_cons] at size
            have h := ih later.length (by omega) is_more rfl
            refine few_shorter ?_
            have form : singles (.set members :: more) = .set members :: singles more := rfl
            rw [form, singles_cons, if_neg star, singles_append, singles_cons, if_neg (by decide)]
            simp only [List.length_cons, List.length_append]
            have := h.few
            omega
        · obtain ⟨more, is_more, rfl⟩ := Option.map_eq_some_iff.mp is_items
          have h := few_single (ih rest.length (by omega) is_more rfl) star bracket fun is_slash => absurd is_slash slash
          rwa [item_lit star question] at h

theorem unescaped_needed (same : ∀ s, exactMatch folding sets Pattern s = Matches folding Pattern s) : Unescaped Pattern := by
  cases is_items : wildcard_unix sets Pattern with
  | none =>
    have nothing := (same (name_of 'a' Pattern)).trans (matches_name folding 'a' Pattern)
    rw [exactMatch, is_items] at nothing
    exact absurd nothing Bool.false_ne_true
  | some items =>
    have accepts (s : QString) : exactMatch folding sets Pattern s = matched folding.fold (fun _ => true) items s := by rw [exactMatch, is_items]
    obtain ⟨taken, taken', all, inside, all'⟩ := as_many folding (fun _ => true) items same
      (fun s h => singles_of_matched items ((accepts s).symm.trans h)) fun s all => (accepts s).trans (matched_of_singles items all)
    have h := wildcard_few folding is_items
    have size := all.length_eq
    have size' := all'.length_eq
    have few := h.few
    rw [inside.eq_of_length_le (by omega)] at all'
    exact h.same taken all all'

end Wildcard

/-! ## Exactly these patterns -/

/-- What a pattern has to be like: a star at both ends, no question mark, at most one part that is something else than
a line feed, and nothing that is special in a wildcard or in an expression. -/
structure Tame (Pattern : QString) : Prop where
  enclosed : Enclosed Pattern
  one_part : (other_parts Pattern).length ≤ 1
  no_octal : NoOctal Pattern
  unescaped : Unescaped Pattern

variable {Preset : Type*}

theorem lower_alone (c d : Char) (_ascii : c.toNat < 128) (letter : c.isAlpha = false) (same : d.toLower = c.toLower) : d = c := by
  have not_upper : ¬ ('A'.val ≤ c.val ∧ c.val ≤ 'Z'.val) := fun upper => by
    have is_upper : c.isUpper = true := by simpa [Char.isUpper] using upper
    simp [Char.isAlpha, is_upper] at letter
  have fixed : c.toLower = c := dif_neg not_upper
  rw [fixed] at same
  by_cases upper : 'A'.val ≤ d.val ∧ d.val ≤ 'Z'.val
  · have value : c.val = d.val + 32 := by
      rw [← same, Char.toLower, dif_pos upper]
      rfl
    have lower : c.isLower = true := by
      have first := UInt32.le_iff_toNat_le.mp upper.1
      have last := UInt32.le_iff_toNat_le.mp upper.2
      simp [Char.isLower, UInt32.le_iff_toNat_le, value, UInt32.toNat_add] at first last ⊢
      omega
    simp [Char.isAlpha, lower] at letter
  · exact (dif_neg upper).symm.trans same

def ascii : Folding := ⟨Char.toLower, lower_alone⟩

def no_sets : Sets := ⟨fun _ => none, fun h => absurd h (by simp)⟩

end TaskExplorer.PresetMatch
