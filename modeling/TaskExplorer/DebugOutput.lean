import Mathlib

/-!
# Debug output

What a process writes to its debugger comes in pieces that end anywhere, and is stored line by
line. The last line may be unfinished, and the next piece goes on with it. Of all lines only
the last ones are kept.
-/

namespace TaskExplorer.DebugOutput

/-! ## The lines of a text -/

section
variable {α : Type*} [DecidableEq α] (newline : α)

/-- The lines of a text, each with the newline that ends it. -/
def lines : List α → List (List α)
  | [] => []
  | letter :: rest =>
    if letter = newline then [letter] :: lines rest
    else match lines rest with
      | [] => [[letter]]
      | line :: more => (letter :: line) :: more

/-- The last line has not been ended. -/
def Unfinished (stored : List (List α)) : Prop := ∃ last ∈ stored.getLast?, last.getLast? ≠ some newline

instance (stored : List (List α)) : Decidable (Unfinished newline stored) := by
  unfold Unfinished
  cases stored.getLast? <;> simp <;> infer_instance

/-- The parts between the newlines, as lines of their own; nothing behind the last newline is no line. -/
def ended : List (List α) → List (List α)
  | [] => []
  | [part] => if part = [] then [] else [part]
  | part :: next :: more => (part ++ [newline]) :: ended (next :: more)

/-- The first part goes on with the unfinished line. -/
def continued (last : List α) (parts : List (List α)) : List α := last ++ parts.headD [] ++ if parts.tail = [] then [] else [newline]

/-- What is stored once the parts have come. -/
def joined (stored parts : List (List α)) : List (List α) :=
  if Unfinished newline stored then stored.dropLast ++ continued newline (stored.getLast?.getD []) parts :: ended newline parts.tail
  else stored ++ ended newline parts

variable {newline}

theorem lines_ne_nil (letter : α) (rest : List α) : lines newline (letter :: rest) ≠ [] := by
  rw [lines]
  split_ifs
  · exact List.cons_ne_nil _ _
  · cases lines newline rest <;> exact List.cons_ne_nil _ _

theorem flatten_lines (text : List α) : (lines newline text).flatten = text := by
  induction text with
  | nil => rfl
  | cons letter rest ih =>
    rw [lines]
    split_ifs with isNewline
    · rw [List.flatten_cons, ih]
      rfl
    · cases found : lines newline rest with
      | nil =>
        rw [found] at ih
        rw [← ih]
        rfl
      | cons line more =>
        rw [found, List.flatten_cons] at ih
        rw [List.flatten_cons, List.cons_append, ih]

theorem lines_ended (text : List α) : ∀ line ∈ (lines newline text).dropLast, ∃ body, line = body ++ [newline] ∧ newline ∉ body := by
  induction text with
  | nil => simp [lines]
  | cons letter rest ih =>
    rw [lines]
    split_ifs with isNewline
    · cases found : lines newline rest with
      | nil => simp
      | cons line more =>
        rw [found] at ih
        rw [List.dropLast_cons_cons, List.forall_mem_cons]
        exact ⟨⟨[], by rw [isNewline]; rfl, List.not_mem_nil⟩, ih⟩
    · cases found : lines newline rest with
      | nil => simp
      | cons line more =>
        rw [found] at ih
        cases more with
        | nil => simp
        | cons next more =>
          rw [List.dropLast_cons_cons, List.forall_mem_cons] at ih ⊢
          obtain ⟨⟨body, ends, none⟩, others⟩ := ih
          refine ⟨⟨letter :: body, by rw [ends]; rfl, ?_⟩, others⟩
          rw [List.mem_cons, not_or]
          exact ⟨fun same => isNewline same.symm, none⟩

theorem ended_split (text : List α) : ended newline (text.splitOn newline) = lines newline text := by
  induction text with
  | nil => rfl
  | cons letter rest ih =>
    obtain ⟨part, more, split⟩ := List.exists_cons_of_ne_nil (List.splitOn_ne_nil newline rest)
    rw [List.splitOn] at split ih ⊢
    rw [List.splitOnP_cons_eq_if_modifyHead, lines]
    rw [split] at ih ⊢
    by_cases isNewline : letter = newline
    · rw [if_pos isNewline, if_pos (beq_iff_eq.mpr isNewline), ended, ih, isNewline]
      rfl
    · rw [if_neg isNewline, if_neg (fun same => isNewline (beq_iff_eq.mp same)), List.modifyHead_cons]
      cases more with
      | nil =>
        rw [ended] at ih ⊢
        rw [if_neg (List.cons_ne_nil _ _), ← ih]
        by_cases none : part = []
        · rw [if_pos none, none]
        · rw [if_neg none]
      | cons next more =>
        rw [ended] at ih ⊢
        rw [← ih]
        rfl

theorem line_ne_nil (text : List α) : ∀ line ∈ lines newline text, line ≠ [] := by
  induction text with
  | nil => simp [lines]
  | cons letter rest ih =>
    rw [lines]
    split_ifs with isNewline
    · exact List.forall_mem_cons.mpr ⟨List.cons_ne_nil _ _, ih⟩
    · cases found : lines newline rest with
      | nil => simp
      | cons line more =>
        rw [found] at ih
        exact List.forall_mem_cons.mpr ⟨List.cons_ne_nil _ _, (List.forall_mem_cons.mp ih).2⟩

omit [DecidableEq α] in
theorem unfinished_singleton (last : List α) : Unfinished newline [last] ↔ last.getLast? ≠ some newline := by
  simp [Unfinished]

theorem joined_cons (line : List α) {stored : List (List α)} (some : stored ≠ []) (parts : List (List α)) :
    joined newline (line :: stored) parts = line :: joined newline stored parts := by
  obtain ⟨next, more, rfl⟩ := List.exists_cons_of_ne_nil some
  have same : Unfinished newline (line :: next :: more) ↔ Unfinished newline (next :: more) := by
    rw [Unfinished, Unfinished, List.getLast?_cons_cons]
  rw [joined, joined, if_congr same rfl rfl, List.getLast?_cons_cons, List.dropLast_cons_cons]
  split_ifs <;> rfl

theorem joined_drop {stored : List (List α)} {n : Nat} (room : n < stored.length ∨ n = 0) (parts : List (List α)) :
    joined newline (stored.drop n) parts = (joined newline stored parts).drop n := by
  induction n generalizing stored with
  | zero => rfl
  | succ n ih =>
    have more : n + 1 < stored.length := room.resolve_right (Nat.succ_ne_zero n)
    match stored, more with
    | line :: stored, more =>
      rw [List.length_cons] at more
      have some : stored ≠ [] := List.ne_nil_of_length_pos (by omega)
      rw [joined_cons line some, List.drop_succ_cons, List.drop_succ_cons]
      exact ih (.inl (by omega))

theorem joined_lines (text piece : List α) : joined newline (lines newline text) (piece.splitOn newline) = lines newline (text ++ piece) := by
  induction text with
  | nil =>
    rw [lines, joined, if_neg (by simp [Unfinished]), ended_split]
    rfl
  | cons letter rest ih =>
    rw [List.cons_append, lines, lines]
    by_cases isNewline : letter = newline
    · rw [if_pos isNewline, if_pos isNewline, ← ih]
      cases found : lines newline rest with
      | nil =>
        have finished : ¬ Unfinished newline [[letter]] := by simp [unfinished_singleton, isNewline]
        have none : ¬ Unfinished newline ([] : List (List α)) := by simp [Unfinished]
        rw [joined, if_neg finished, joined, if_neg none]
        rfl
      | cons line more => exact joined_cons _ (List.cons_ne_nil _ _) _
    · rw [if_neg isNewline, if_neg isNewline, ← ih]
      cases found : lines newline rest with
      | nil =>
        -- Nothing was left of the rest, so the piece goes on with this letter alone.
        have unfinished : Unfinished newline [[letter]] := by simp [unfinished_singleton, isNewline]
        have none : ¬ Unfinished newline ([] : List (List α)) := by simp [Unfinished]
        obtain ⟨part, more, split⟩ := List.exists_cons_of_ne_nil (List.splitOn_ne_nil newline piece)
        simp only [joined, if_pos unfinished, if_neg none, split, continued]
        cases more with
        | nil => by_cases empty : part = [] <;> simp [ended, empty]
        | cons next more => simp [ended]
      | cons line more =>
        have some : line ≠ [] := line_ne_nil rest line (by rw [found]; exact List.mem_cons_self)
        cases more with
        | nil =>
          obtain ⟨first, others, rfl⟩ := List.exists_cons_of_ne_nil some
          have same : Unfinished newline [letter :: first :: others] ↔ Unfinished newline [first :: others] := by
            rw [unfinished_singleton, unfinished_singleton, List.getLast?_cons_cons]
          simp only [joined, if_congr same rfl rfl, continued]
          split_ifs <;> simp
        | cons next more => rw [joined_cons _ (List.cons_ne_nil _ _), joined_cons _ (List.cons_ne_nil _ _)]

omit [DecidableEq α] in
theorem dropLast_drop (stored : List (List α)) (n : Nat) : (stored.drop n).dropLast = stored.dropLast.drop n := by
  rw [List.dropLast_eq_take, List.dropLast_eq_take, List.drop_take, List.length_drop]
  congr 1
  omega

variable (newline) in
theorem length_joined_lines (text piece : List α) : (lines newline text).length ≤ (lines newline (text ++ piece)).length := by
  rw [← joined_lines text piece]
  cases text with
  | nil => exact Nat.zero_le _
  | cons letter rest =>
    have positive : 0 < (lines newline (letter :: rest)).length := List.length_pos_of_ne_nil (lines_ne_nil letter rest)
    rw [joined]
    split_ifs
    · rw [List.length_append, List.length_dropLast, List.length_cons]
      omega
    · rw [List.length_append]
      omega

end

/-! ## The messages of a process -/

structure SDebugMessage where
  TimeStamp : Nat
  Text : List Char
deriving DecidableEq, Repr

structure CProcessInfo where
  DebugMessages : List SDebugMessage := []
  DebugMessageCount : UInt32 := 0
deriving DecidableEq, Repr

/-- The last message takes the first part when it is unfinished. -/
def complete (messages : List SDebugMessage) (Texts : List (List Char)) : List SDebugMessage × List (List Char) :=
  match messages.getLast? with
  | some Message =>
    if Message.Text.getLast? ≠ some '\n' then
      (messages.dropLast ++ [{ Message with Text := continued '\n' Message.Text Texts }], Texts.tail)
    else (messages, Texts)
  | none => (messages, Texts)

/-- The oldest messages go while there are more than the limit. -/
def remove_first (limit : Nat) : List SDebugMessage → List SDebugMessage
  | [] => []
  | Message :: rest => if rest.length + 1 > limit then remove_first limit rest else Message :: rest

/-- `limit` is the option `MaxDebugLog`. -/
def AddDebugMessage (limit : Nat) (process : CProcessInfo) (call : List Char × Nat) : CProcessInfo :=
  let completed := complete process.DebugMessages (call.1.splitOn '\n')
  let added := (ended '\n' completed.2).map (fun Text => (⟨call.2, Text⟩ : SDebugMessage))
  ⟨remove_first limit (completed.1 ++ added), process.DebugMessageCount + UInt32.ofNat added.length⟩

def GetDebugMessages (process : CProcessInfo) : List SDebugMessage × UInt32 := (process.DebugMessages, process.DebugMessageCount)

/-- A process after calls with a text and the time each, from its start or from when its messages were cleared. -/
def after (limit : Nat) (calls : List (List Char × Nat)) : CProcessInfo := calls.foldl (AddDebugMessage limit) {}

/-- Everything that was ever added. -/
def written (calls : List (List Char × Nat)) : List Char := (calls.map Prod.fst).flatten

def stored_texts (process : CProcessInfo) : List (List Char) := (GetDebugMessages process).1.map SDebugMessage.Text

theorem remove_first_eq (limit : Nat) (messages : List SDebugMessage) : remove_first limit messages = messages.drop (messages.length - limit) := by
  induction messages with
  | nil => rw [remove_first, List.drop_nil]
  | cons Message rest ih =>
    rw [remove_first, List.length_cons]
    split_ifs with more
    · rw [ih, Nat.succ_sub (by omega), List.drop_succ_cons]
    · rw [Nat.sub_eq_zero_of_le (by omega), List.drop_zero]

theorem complete_texts (messages : List SDebugMessage) (Texts : List (List Char)) :
    (complete messages Texts).1.map SDebugMessage.Text ++ ended '\n' (complete messages Texts).2 =
      joined '\n' (messages.map SDebugMessage.Text) Texts := by
  have texts : (messages.map SDebugMessage.Text).getLast? = messages.getLast?.map SDebugMessage.Text := List.getLast?_map
  rw [complete, joined, texts]
  cases last : messages.getLast? with
  | none =>
    rw [last] at texts
    rw [if_neg (by simp [Unfinished, texts])]
  | some Message =>
    rw [last] at texts
    by_cases finished : Message.Text.getLast? = some '\n'
    · rw [if_neg (by simp [Unfinished, texts, finished])]
      simp [finished]
    · rw [if_pos (by simp [Unfinished, texts, finished])]
      simp [finished, List.map_dropLast]

theorem stored_step (limit : Nat) (process : CProcessInfo) (call : List Char × Nat) :
    stored_texts (AddDebugMessage limit process call) =
      (joined '\n' (stored_texts process) (call.1.splitOn '\n')).drop
        ((joined '\n' (stored_texts process) (call.1.splitOn '\n')).length - limit) := by
  have texts := complete_texts process.DebugMessages (call.1.splitOn '\n')
  rw [stored_texts, stored_texts, GetDebugMessages, GetDebugMessages, AddDebugMessage]
  simp only
  rw [remove_first_eq, List.map_drop, List.map_append, List.map_map, ← texts]
  simp [Function.comp_def]

theorem stored_eq (limit : Nat) (positive : 1 ≤ limit) (calls : List (List Char × Nat)) :
    stored_texts (after limit calls) = (lines '\n' (written calls)).drop ((lines '\n' (written calls)).length - limit) := by
  induction calls using List.reverseRecOn with
  | nil => exact List.drop_nil.symm
  | append_singleton calls call ih =>
    have added : after limit (calls ++ [call]) = AddDebugMessage limit (after limit calls) call := by
      rw [after, List.foldl_append]
      rfl
    have all : written (calls ++ [call]) = written calls ++ call.1 := by simp [written]
    have room : (lines '\n' (written calls)).length - limit < (lines '\n' (written calls)).length ∨
        (lines '\n' (written calls)).length - limit = 0 := by omega
    have grows := length_joined_lines '\n' (written calls) call.1
    rw [added, all, stored_step, ih, joined_drop room, joined_lines, List.length_drop, List.drop_drop]
    congr 1
    omega

theorem flatten_stored (limit : Nat) (positive : 1 ≤ limit) (calls : List (List Char × Nat)) :
    written calls = ((lines '\n' (written calls)).take ((lines '\n' (written calls)).length - limit)).flatten ++
      (stored_texts (after limit calls)).flatten := by
  rw [stored_eq limit positive, ← List.flatten_append, List.take_append_drop, flatten_lines]

theorem dropped_ends {text : List Char} {n : Nat} (fewer : n < (lines '\n' text).length) :
    ((lines '\n' text).take n).flatten = [] ∨ ∃ before, ((lines '\n' text).take n).flatten = before ++ ['\n'] := by
  cases n with
  | zero => exact .inl rfl
  | succ n =>
    have inside : n < (lines '\n' text).length := Nat.lt_of_succ_lt fewer
    have member : (lines '\n' text)[n] ∈ (lines '\n' text).dropLast := by
      refine List.mem_iff_getElem.mpr ⟨n, ?_, List.getElem_dropLast _⟩
      rw [List.length_dropLast]
      omega
    obtain ⟨body, ends, -⟩ := lines_ended text _ member
    refine .inr ⟨((lines '\n' text).take n).flatten ++ body, ?_⟩
    rw [List.take_succ_eq_append_getElem inside, List.flatten_append, ends, List.append_assoc]
    simp

/-- What is stored: the texts from some line start on, all of them while there are no more lines than the limit; whole lines but for the
last; and the same for every way to cut the output into pieces. -/
theorem output_reassembled (limit : Nat) (positive : 1 ≤ limit) (calls : List (List Char × Nat)) :
    (∃ dropped, written calls = dropped ++ (stored_texts (after limit calls)).flatten ∧
      (dropped = [] ∨ ∃ before, dropped = before ++ ['\n']) ∧
      ((stored_texts (after limit calls)).length < limit ∨ (lines '\n' (written calls)).length ≤ limit → dropped = [])) ∧
    (∀ text ∈ (stored_texts (after limit calls)).dropLast, ∃ body, text = body ++ ['\n'] ∧ '\n' ∉ body) ∧
    ∀ other : List (List Char × Nat), written other = written calls → stored_texts (after limit other) = stored_texts (after limit calls) := by
  refine ⟨⟨_, flatten_stored limit positive calls, ?_, ?_⟩, ?_, ?_⟩
  · by_cases some : (lines '\n' (written calls)).length = 0
    · exact .inl (by rw [List.length_eq_zero_iff.mp some, List.take_nil, List.flatten_nil])
    · exact dropped_ends (by omega)
  · intro few
    rw [stored_eq limit positive, List.length_drop] at few
    have none : (lines '\n' (written calls)).length - limit = 0 := by omega
    rw [none]
    rfl
  · intro text member
    rw [stored_eq limit positive, dropLast_drop] at member
    exact lines_ended (written calls) text (List.mem_of_mem_drop member)
  · intro other same
    rw [stored_eq limit positive, stored_eq limit positive, same]

/-- Two lines in three pieces, of which one is kept. -/
theorem output_reassembled_pieces : stored_texts (after 1 [("a".toList, 1), ("b\nc".toList, 2), ("d".toList, 3)]) = ["cd".toList] ∧
    ∀ other : List (List Char × Nat), written other = "ab\ncd".toList → stored_texts (after 1 other) = ["cd".toList] :=
  ⟨by decide, (output_reassembled 1 (by decide) [("a".toList, 1), ("b\nc".toList, 2), ("d".toList, 3)]).2.2⟩

end TaskExplorer.DebugOutput
