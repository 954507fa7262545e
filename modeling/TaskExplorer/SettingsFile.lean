import TaskExplorer.Codec
import TaskExplorer.Transition

/-!
# Writing a settings file

`CXml::Write` writes a document to a `.tmp` file, moves the old file to `.bak`, the new one in
its place, and removes the `.bak` file. It looks at none of the results. What the operating
system lets it do, and how far the process gets, comes with every attempt.
-/

namespace TaskExplorer.SettingsFile
open Codec Transition

/-- The file, its `.bak` and its `.tmp`. -/
structure Files where
  main : Option Bytes
  bak : Option Bytes
  tmp : Option Bytes
deriving DecidableEq, Repr

structure Attempt where
  /-- `File.open` succeeds. -/
  opens : Bool
  /-- What is in the `.tmp` file before it is closed, and what once it is. -/
  buffered : Bytes
  closed : Bytes
  /-- The renames and the removal are let through. -/
  backs : Bool
  replaces : Bool
  removes : Bool
  /-- The steps taken before the process dies, or all of them. -/
  steps : Fin 7
deriving DecidableEq, Repr

/-! ## The steps -/

def open_tmp (attempt : Attempt) (files : Files) : Files := bif attempt.opens then { files with tmp := some [] } else files

def serialize_tmp (attempt : Attempt) (files : Files) : Files := bif attempt.opens then { files with tmp := some attempt.buffered } else files

/-- `QFile::rename` does not overwrite a file, and needs one to rename. -/
def rename_bak (attempt : Attempt) (files : Files) : Files :=
  match files.main, files.bak with
  | some old, none => bif attempt.backs then { files with main := none, bak := some old } else files
  | _, _ => files

/-- `File.rename` closes the file first, where there is something to rename it to. -/
def rename_tmp (attempt : Attempt) (files : Files) : Files :=
  match files.main, files.tmp with
  | none, some leftover =>
    let content := bif attempt.opens then attempt.closed else leftover
    bif attempt.replaces then { files with main := some content, tmp := none } else { files with tmp := some content }
  | _, _ => files

def remove_bak (attempt : Attempt) (files : Files) : Files := bif attempt.removes then { files with bak := none } else files

/-- What the destructor of `File` leaves. -/
def close_tmp (attempt : Attempt) (files : Files) : Files :=
  match files.tmp with
  | some _ => bif attempt.opens then { files with tmp := some attempt.closed } else files
  | none => files

def write (attempt : Attempt) (files : Files) : Files :=
  ([open_tmp, serialize_tmp, rename_bak, rename_tmp, remove_bak, close_tmp].take attempt.steps.val).foldl (fun files step => step attempt files) files

section
variable {V : Type} (serialize : V → Bytes) (parse : Bytes → V) (empty : V)

def read (files : Files) : V :=
  match files.main with
  | some bytes => parse bytes
  | none => empty

/-! ## Runs -/

/-- A write whose steps all do what there is to do for them. -/
def succeeds (value : V) (attempt : Attempt) (files : Files) : Bool :=
  attempt.steps.val ≥ 5 && attempt.opens && attempt.closed == serialize value && (files.main.isNone || attempt.backs && files.bak.isNone) &&
    attempt.replaces && (attempt.removes || files.main.isNone && files.bak.isNone)

/-- The value of the last write that succeeded and those of the writes since then. -/
structure History (V : Type) where
  files : Files
  promised : Option (List V)

def step (history : History V) (event : V × Attempt) : Option (History V) :=
  some { files := write event.2 history.files
         promised := bif succeeds serialize event.1 event.2 history.files then some [event.1] else history.promised.map (event.1 :: ·) }

/-- The old file is moved away. -/
def MovesAway (attempt : Attempt) (files : Files) : Prop := attempt.steps.val ≥ 3 ∧ attempt.backs = true ∧ files.main ≠ none ∧ files.bak = none

/-- Once a write has succeeded, a write that moves the old file away also moves a whole document in its place. -/
def Careful (history : History V) (event : V × Attempt) : Prop :=
  ∀ values, history.promised = some values → MovesAway event.2 history.files → event.2.steps.val ≥ 4 ∧ event.2.replaces = true ∧
    if event.2.opens = true then event.2.closed = serialize event.1 else ∃ earlier ∈ values, history.files.tmp = some (serialize earlier)

/-- The file holds a whole document, of the last write that succeeded or of a later one. -/
def Kept (history : History V) : Prop := ∀ values, history.promised = some values → ∃ value ∈ values, history.files.main = some (serialize value)

/-! ## What a write does to the file -/

/-- The old file and its `.bak` are as they were when the document has been written. -/
theorem opened_files (attempt : Attempt) (files : Files) :
    serialize_tmp attempt (open_tmp attempt files) =
      { files with tmp := bif attempt.opens then some attempt.buffered else files.tmp } := by
  cases opens : attempt.opens <;> simp [serialize_tmp, open_tmp, opens]

/-- Removing the `.bak` file and closing the `.tmp` file leave the file alone. -/
theorem write_main (attempt : Attempt) (files : Files) :
    (write attempt files).main =
      if attempt.steps.val < 3 then files.main
      else if attempt.steps.val < 4 then (rename_bak attempt (serialize_tmp attempt (open_tmp attempt files))).main
      else (rename_tmp attempt (rename_bak attempt (serialize_tmp attempt (open_tmp attempt files)))).main := by
  have removed (files : Files) : (remove_bak attempt files).main = files.main := by
    cases removes : attempt.removes <;> simp [remove_bak, removes]
  have closed (files : Files) : (close_tmp attempt files).main = files.main := by
    rw [close_tmp]
    cases files.tmp with
    | none => rfl
    | some content => cases opens : attempt.opens <;> simp
  have opened (files : Files) : (open_tmp attempt files).main = files.main := by
    cases opens : attempt.opens <;> simp [open_tmp, opens]
  rw [write]
  rcases attempt.steps with ⟨steps, bound⟩
  interval_cases steps <;> simp [removed, closed, opened, opened_files]

theorem write_kept {attempt : Attempt} {files : Files} {old : Bytes} (present : files.main = some old) (stays : ¬ MovesAway attempt files) :
    (write attempt files).main = some old := by
  have renamed : attempt.steps.val < 3 ∨ rename_bak attempt (serialize_tmp attempt (open_tmp attempt files)) = serialize_tmp attempt (open_tmp attempt files) := by
    by_cases early : attempt.steps.val < 3
    · exact .inl early
    · right
      rw [opened_files, rename_bak]
      simp only [present]
      cases isBak : files.bak with
      | some backup => rfl
      | none =>
        have refused : attempt.backs = false := by
          by_contra backs
          exact stays ⟨by omega, by simpa using backs, by simp [present], isBak⟩
        simp [refused]
  have unmoved : (rename_tmp attempt (serialize_tmp attempt (open_tmp attempt files))).main = some old := by
    rw [opened_files, rename_tmp]
    simp only [present]
  rw [write_main]
  rcases renamed with early | same
  · rw [if_pos early, present]
  · rw [same, unmoved]
    simp [opened_files, present]

theorem write_replaced {attempt : Attempt} {files : Files} {content : Bytes} (free : files.main = none ∨ MovesAway attempt files)
    (enough : attempt.steps.val ≥ 4) (replaces : attempt.replaces = true)
    (isContent : if attempt.opens = true then attempt.closed = content else files.tmp = some content) :
    (write attempt files).main = some content := by
  have moved : (rename_bak attempt (serialize_tmp attempt (open_tmp attempt files))).main = none ∧
      (rename_bak attempt (serialize_tmp attempt (open_tmp attempt files))).tmp = bif attempt.opens then some attempt.buffered else files.tmp := by
    rw [opened_files, rename_bak]
    rcases free with absent | ⟨-, backs, present, isBak⟩
    · simp [absent]
    · obtain ⟨old, isOld⟩ := Option.ne_none_iff_exists'.mp present
      simp [isOld, isBak, backs]
  rw [write_main, if_neg (by omega), if_neg (by omega), rename_tmp, moved.1, moved.2]
  cases opens : attempt.opens with
  | true =>
    rw [if_pos opens] at isContent
    simp [replaces, isContent]
  | false =>
    rw [if_neg (by simp [opens])] at isContent
    simp [replaces, isContent]

variable {serialize}

theorem succeeds_main {value : V} {attempt : Attempt} {files : Files} (success : succeeds serialize value attempt files = true) :
    (write attempt files).main = some (serialize value) := by
  simp only [succeeds, Bool.and_eq_true, Bool.or_eq_true, decide_eq_true_eq, beq_iff_eq, Option.isNone_iff_eq_none] at success
  obtain ⟨⟨⟨⟨⟨enough, opens⟩, whole⟩, backed⟩, replaces⟩, -⟩ := success
  refine write_replaced ?_ (by omega) replaces (by rw [if_pos opens]; exact whole)
  rcases backed with absent | ⟨backs, isBak⟩
  · exact .inl absent
  · by_cases absent : files.main = none
    · exact .inl absent
    · exact .inr ⟨by omega, backs, absent, isBak⟩

theorem Kept.write {history later : History V} {event : V × Attempt} (kept : Kept serialize history) (careful : Careful serialize history event)
    (moved : step serialize history event = some later) : Kept serialize later := by
  cases moved
  intro values isPromised
  cases success : succeeds serialize event.1 event.2 history.files with
  | true =>
    rw [success, cond_true, Option.some.injEq] at isPromised
    exact ⟨event.1, by simp [← isPromised], succeeds_main success⟩
  | false =>
    rw [success, cond_false] at isPromised
    obtain ⟨before, isBefore, rfl⟩ := Option.map_eq_some_iff.mp isPromised
    obtain ⟨value, among, present⟩ := kept before isBefore
    by_cases away : MovesAway event.2 history.files
    · obtain ⟨enough, replaces, isWhole⟩ := careful before isBefore away
      by_cases opens : event.2.opens = true
      · rw [if_pos opens] at isWhole
        exact ⟨event.1, by simp, write_replaced (.inr away) enough replaces (by rw [if_pos opens]; exact isWhole)⟩
      · rw [if_neg opens] at isWhole
        obtain ⟨earlier, isEarlier, isTmp⟩ := isWhole
        exact ⟨earlier, by simp [isEarlier], write_replaced (.inr away) enough replaces (by rw [if_neg opens]; exact isTmp)⟩
    · exact ⟨value, by simp [among], write_kept present away⟩

/-- After careful writes the file reads as the last write that succeeded, or as a later one. -/
theorem document_kept {files : Files} {history : History V} (run : Run (step serialize) (Careful serialize) ⟨files, none⟩ history) {values : List V}
    (promised : history.promised = some values) : ∃ value ∈ values, history.files.main ≠ none ∧ read parse empty history.files = parse (serialize value) := by
  have kept : Kept serialize history := run.invariant (Kept serialize) (by simp [Kept]) Kept.write
  obtain ⟨value, among, present⟩ := kept values promised
  exact ⟨value, among, by simp [present], by simp [read, present]⟩

end

/-! ## Two runs -/

/-- A document is a text behind a mark; without the mark there is no document. -/
def textDocument (text : Bytes) : Bytes := 60 :: text

def textOf : Bytes → Bytes
  | 60 :: text => text
  | _ => []

def whole (text : Bytes) : Attempt := ⟨true, [], textDocument text, true, true, true, 6⟩

/-- The second write cannot open its file, and the third replaces the first. -/
theorem document_kept_replaced : ∃ history, runs (step textDocument) ⟨⟨none, none, none⟩, none⟩
      [([1], whole [1]), ([2], { whole [2] with opens := false, backs := false }), ([3], whole [3])] = some history ∧
    history.promised = some [[3]] ∧ read textOf [] history.files = [3] ∧
    ∃ value ∈ [[3]], history.files.main ≠ none ∧ read textOf [] history.files = textOf (textDocument value) := by
  have meets : Meets (step textDocument) (Careful textDocument) ⟨⟨none, none, none⟩, none⟩
      [([1], whole [1]), ([2], { whole [2] with opens := false, backs := false }), ([3], whole [3])] := by
    refine ⟨?_, ?_, ?_, trivial⟩
    · rintro values ⟨⟩
    · rintro values - ⟨-, ⟨⟩, -⟩
    · exact fun values _ _ => ⟨by decide, rfl, rfl⟩
  exact ⟨_, rfl, rfl, rfl, document_kept textOf [] (Run.of_runs .start meets rfl) rfl⟩

/-- The old file is moved away, the new one cannot be put in its place, and the `.bak` file is removed. -/
theorem document_lost : ∃ history, runs (step textDocument) ⟨⟨none, none, none⟩, none⟩
      [([1], whole [1]), ([2], { whole [2] with replaces := false })] = some history ∧
    history.promised = some [[2], [1]] ∧ history.files.main = none ∧ history.files.bak = none ∧
    ¬ ∃ value ∈ [[2], [1]], read textOf [] history.files = textOf (textDocument value) := by
  exact ⟨_, rfl, rfl, rfl, rfl, by decide⟩

end TaskExplorer.SettingsFile
