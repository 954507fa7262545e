import Mathlib

/-!
# Files and their contents

A store holds the contents of files under their paths. Moves and copies replace what is there;
a path that names no file cannot be moved.
-/

namespace TaskExplorer.FileStore

/-- The first pair of a path counts. -/
structure Store (P B : Type) where
  files : List (P × B)
deriving Repr

namespace Store
variable {P B : Type} [DecidableEq P]

def empty : Store P B := ⟨[]⟩

def get (store : Store P B) (path : P) : Option B := (store.files.find? (fun file => file.1 = path)).map Prod.snd

def remove (store : Store P B) (path : P) : Store P B := ⟨store.files.filter (fun file => file.1 ≠ path)⟩

def put (store : Store P B) (path : P) (content : B) : Store P B := ⟨(path, content) :: (store.remove path).files⟩

def move (store : Store P B) (source target : P) : Store P B :=
  match store.get source with
  | some content => (store.remove source).put target content
  | none => store

@[simp] theorem get_remove (store : Store P B) (path sought : P) :
    (store.remove path).get sought = if sought = path then none else store.get sought := by
  obtain ⟨files⟩ := store
  simp only [get, remove]
  induction files with
  | nil => simp
  | cons first rest ih =>
    by_cases isFirst : first.1 = path
    · rw [List.filter_cons_of_neg (by simpa using isFirst), ih]
      by_cases same : sought = path
      · simp [same]
      · simp [same, isFirst, Ne.symm same]
    · rw [List.filter_cons_of_pos (by simpa using isFirst), List.find?_cons, List.find?_cons]
      by_cases isSought : first.1 = sought
      · simp [← isSought, isFirst]
      · simpa [isSought] using ih

@[simp] theorem get_put (store : Store P B) (path sought : P) (content : B) :
    (store.put path content).get sought = if sought = path then some content else store.get sought := by
  by_cases same : sought = path
  · simp [put, get, same]
  · have removed := store.get_remove path sought
    simp only [same, if_false] at removed
    rw [if_neg same, ← removed]
    simp [put, get, Ne.symm same]

theorem get_move (store : Store P B) {source target : P} (differ : source ≠ target) (sought : P) :
    (store.move source target).get sought =
      if sought = target then (store.get source).or (store.get target) else if sought = source then none else store.get sought := by
  rw [move]
  cases content : store.get source with
  | none =>
    by_cases isTarget : sought = target
    · simp [isTarget]
    · by_cases isSource : sought = source
      · simp [isSource, content, differ]
      · simp [isTarget, isSource]
  | some bytes =>
    by_cases isTarget : sought = target
    · simp [isTarget]
    · simp [isTarget]

end Store

end TaskExplorer.FileStore
