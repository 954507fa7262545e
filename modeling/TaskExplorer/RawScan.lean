import TaskExplorer.CReader
import TaskExplorer.VariantRead

/-!
# Finding without a container

`Find` goes over a payload and skips the entries that are not sought by their headers, the
loops with a callback deliver them all, and `Get` makes the container first, which keeps a
name only up to its first NUL.
-/

namespace TaskExplorer.RawScan
open Codec OrderedMap VariantFormat VariantContainer VariantValue VariantEdit VariantRead
open CReader (Parses)

/-- The loop of `Find`, with as many turns as there are bytes. -/
def find_loop (kind : Kind) (key : Key) : Nat → Bytes → Except CException (Option Packed)
  | 0, _ => .ok none
  | fuel + 1, bytes =>
    if bytes = [] then .ok none
    else do
      let (name, buffer) ← read_key kind ⟨bytes, 0⟩
      if name = key then
        let (data, _) ← from_packet buffer
        return some data
      else
        let ((_, size), buffer) ← read_header buffer
        let (_, buffer) ← read_data size buffer
        find_loop kind key fuel buffer.left

/-- `Find` on a variant that has no container yet. -/
def find_scan (packed : Packed) (place : Place) : Outcome :=
  if packed.type ≠ place.kind.type then .ok .absent
  else do
    let found ← find_loop place.kind place.key packed.payload.length packed.payload
    return found.elim .absent .value

/-- The first entry of a key that `ReadRawMap` or `ReadRawIMap` delivers. -/
def first_delivered (packed : Packed) (place : Place) : Answer :=
  (((raw_entries place.kind packed.payload).1.find? (fun pair => pair.1 = place.key)).map Prod.snd).elim .absent .value

/-- The three give one answer for a place of a fresh variant. -/
def Agree (access : EAccess) (payload : Bytes) (place : Place) : Prop :=
  ∃ answer, find_scan ⟨place.kind.type, payload⟩ place = .ok answer ∧ get (.raw access ⟨place.kind.type, payload⟩) place = .ok answer ∧
    first_delivered ⟨place.kind.type, payload⟩ place = answer

/-- The first entry whose name is the key up to its first NUL has the key for its name, or a later one has, and the first of these
holds the same. -/
def Clear (pairs : List (Key × Packed)) (key : Key) : Prop :=
  ∀ before pair after, pairs = before ++ pair :: after → pair.1.stored = key → (∀ earlier ∈ before, earlier.1.stored ≠ key) →
    pair.1 = key ∨ ∃ other, after.find? (fun pair => pair.1 = key) = some other ∧ other.2 = pair.2

/-! ## The loop -/

theorem from_packet_skip {α : Type} (buffer : Cursor) (next : Cursor → Except CException α) :
    (do let ((_, size), buffer) ← read_header buffer
        let (_, buffer) ← read_data size buffer
        next buffer) = (do let (_, buffer) ← from_packet buffer
                           next buffer) := by
  rw [from_packet]
  cases read_header buffer with
  | error raised => rfl
  | ok header =>
    obtain ⟨⟨type, size⟩, buffer⟩ := header
    simp only [bind, Except.bind]
    cases read_data size buffer with
    | error raised => rfl
    | ok read => rfl

section
variable {kind : Kind} {key : Key} {bytes : Bytes}

theorem find_raw_fail {raised : CException} (verdict : entry kind bytes = .fail raised) : find_raw kind bytes key = .error raised := by
  rw [find_raw, raw_entries, run_fail (entry_productive kind) verdict]
  rfl

theorem find_raw_item {pair : Key × Packed} {rest : Bytes} (verdict : entry kind bytes = .item pair rest) :
    find_raw kind bytes key = if pair.1 = key then .ok (some pair.2) else find_raw kind rest key := by
  rw [find_raw, raw_entries, run_item (entry_productive kind) verdict, List.find?_cons, find_raw, raw_entries]
  by_cases same : pair.1 = key <;> simp [same]

theorem find_loop_eq {fuel : Nat} (enough : bytes.length ≤ fuel) : find_loop kind key fuel bytes = find_raw kind bytes key := by
  induction fuel generalizing bytes with
  | zero =>
    have empty : bytes = [] := List.length_eq_zero_iff.mp (by omega)
    subst empty
    rfl
  | succ fuel ih =>
    rw [find_loop]
    split_ifs with empty
    · subst empty
      rfl
    · cases keyRead : read_key kind ⟨bytes, 0⟩ with
      | error raised =>
        have verdict : entry kind bytes = .fail raised := by simp [entry, empty, read_entry, keyRead, bind, Except.bind]
        rw [find_raw_fail verdict]
        rfl
      | ok named =>
        obtain ⟨name, buffer⟩ := named
        simp only [bind, Except.bind]
        have skip := @from_packet_skip _ buffer (fun buffer => find_loop kind key fuel buffer.left)
        simp only [bind, Except.bind] at skip
        rw [skip]
        cases packetRead : from_packet buffer with
        | error raised =>
          have verdict : entry kind bytes = .fail raised := by simp [entry, empty, read_entry, keyRead, packetRead, bind, Except.bind]
          rw [find_raw_fail verdict]
          split_ifs <;> rfl
        | ok packet =>
          obtain ⟨packed, after⟩ := packet
          have verdict : entry kind bytes = .item (name, packed) after.left := by
            simp [entry, empty, read_entry, keyRead, packetRead, bind, Except.bind, pure, Except.pure]
          have shorter := (entry_productive kind).shrinks _ _ _ verdict
          rw [find_raw_item verdict]
          split_ifs with same
          · rfl
          · exact ih (Nat.le_of_lt_succ (shorter.trans_le enough))

end

/-! ## The three answers -/

section
variable {access : EAccess} {payload : Bytes} {place : Place}

theorem first_found (parses : Parses place.kind payload) :
    find_scan ⟨place.kind.type, payload⟩ place = .ok (first_delivered ⟨place.kind.type, payload⟩ place) := by
  obtain ⟨rest, ended⟩ := parses
  rw [find_scan, if_neg (fun other => other rfl), find_loop_eq le_rfl, find_raw, ended, first_delivered]
  cases (raw_entries place.kind payload).1.find? (fun pair => pair.1 = place.key) <;> rfl

/-- `Get` answers with the first entry whose name is the key up to its first NUL. -/
theorem get_fresh (access : EAccess) (parses : Parses place.kind payload) :
    get (.raw access ⟨place.kind.type, payload⟩) place =
      .ok ((((raw_entries place.kind payload).1.find? (fun pair => pair.1.stored = place.key)).map Prod.snd).elim .absent .value) := by
  have keyed : place.kind ≠ .list := by cases place <;> simp [Place.kind]
  have loaded : load place.kind payload = .ok (collect place.kind (raw_entries place.kind payload).1) := load_ok_iff.mpr ⟨parses, rfl⟩
  have opened : Opened (.raw access ⟨place.kind.type, payload⟩) (.opened access place.kind payload _) :=
    .parsed (kindOf_type place.kind) loaded (OpenedAll.refl _)
  have whole : (parse place.kind payload).2 = none := by
    obtain ⟨rest, ended⟩ := parses
    rw [parse, show raw_entries place.kind payload = ((raw_entries place.kind payload).1, .pending rest) by rw [← ended]]
  have sound : SoundReader (.raw access ⟨place.kind.type, payload⟩) (.has place) := by
    intro kind known _ other isKind
    rw [kindOf_type] at isKind
    exact Option.some.inj isKind ▸ whole
  have isHeader : ∀ found : Option Packed, (found.map (fun packed => Variant.raw .readOnly packed)).map header = found := by
    intro found
    cases found <;> rfl
  rw [opened.get sound, get_opened, find_map place.key (fun _ packed => Variant.raw .readOnly packed), find_collect keyed, isHeader]

end

/-! ## Where they agree -/

theorem place_key_stored (place : Place) : place.key.stored = place.key := by
  cases place with
  | name text => exact stored_stored (.name text)
  | index value => rfl

section
variable {pairs : List (Key × Packed)} {key : Key}

theorem find_split (after : List (Key × Packed)) (stored : key.stored = key) {before : List (Key × Packed)} {pair : Key × Packed} (isStored : pair.1.stored = key)
    (earlier : ∀ other ∈ before, other.1.stored ≠ key) :
    (before ++ pair :: after).find? (fun pair => pair.1.stored = key) = some pair ∧
      (before ++ pair :: after).find? (fun pair => pair.1 = key) = if pair.1 = key then some pair else after.find? (fun pair => pair.1 = key) := by
  have noStored : before.find? (fun pair => pair.1.stored = key) = none := List.find?_eq_none.mpr (by simpa using earlier)
  have noExact : before.find? (fun pair => pair.1 = key) = none := by
    refine List.find?_eq_none.mpr fun other member isKey => ?_
    have same : other.1 = key := of_decide_eq_true isKey
    exact earlier other member (by rw [same, stored])
  constructor
  · rw [List.find?_append, noStored, Option.none_or, List.find?_cons_of_pos (by simpa using isStored)]
  · rw [List.find?_append, noExact, Option.none_or, List.find?_cons]
    by_cases same : pair.1 = key <;> simp [same]

theorem clear_iff (stored : key.stored = key) :
    Clear pairs key ↔
      (pairs.find? (fun pair => pair.1.stored = key)).map Prod.snd = (pairs.find? (fun pair => pair.1 = key)).map Prod.snd := by
  constructor
  · intro clear
    cases first : pairs.find? (fun pair => pair.1.stored = key) with
    | none =>
      have none : pairs.find? (fun pair => pair.1 = key) = none := by
        refine List.find?_eq_none.mpr fun other member isKey => ?_
        have same : other.1 = key := of_decide_eq_true isKey
        exact List.find?_eq_none.mp first other member (by simp [same, stored])
      rw [none]
    | some pair =>
      obtain ⟨isStored, before, after, rfl, earlier⟩ := List.find?_eq_some_iff_append.mp first
      have isStored : pair.1.stored = key := of_decide_eq_true isStored
      have earlier : ∀ other ∈ before, other.1.stored ≠ key := by simpa using earlier
      rw [(find_split after stored isStored earlier).2]
      rcases clear before pair after rfl isStored earlier with same | ⟨other, found, sameValue⟩
      · rw [if_pos same]
      · split_ifs with same
        · rfl
        · rw [found, Option.map_some, Option.map_some, sameValue]
  · rintro agree before pair after rfl isStored earlier
    obtain ⟨first, exact⟩ := find_split after stored isStored earlier
    rw [first, exact] at agree
    by_cases same : pair.1 = key
    · exact .inl same
    · rw [if_neg same] at agree
      obtain ⟨other, found, sameValue⟩ := Option.map_eq_some_iff.mp agree.symm
      exact .inr ⟨other, found, sameValue⟩

end

theorem elim_value_injective : Function.Injective (fun found : Option Packed => found.elim Answer.absent Answer.value) := by
  intro one other same
  cases one <;> cases other <;> simp at same ⊢
  exact same

theorem agree_iff_first (access : EAccess) {payload : Bytes} {place : Place} (parses : Parses place.kind payload) :
    Agree access payload place ↔
      ((raw_entries place.kind payload).1.find? (fun pair => pair.1.stored = place.key)).map Prod.snd =
        ((raw_entries place.kind payload).1.find? (fun pair => pair.1 = place.key)).map Prod.snd := by
  rw [Agree, first_found parses, get_fresh access parses]
  constructor
  · rintro ⟨answer, scanned, got, -⟩
    exact elim_value_injective (Except.ok.inj (got.trans scanned.symm))
  · intro same
    exact ⟨_, rfl, by rw [same]; rfl, rfl⟩

/-- On a payload that parses the three agree on a place exactly when its key is clear in the entries. -/
theorem raw_scan_agrees_iff (access : EAccess) (payload : Bytes) (place : Place) (parses : Parses place.kind payload) :
    Agree access payload place ↔ Clear (raw_entries place.kind payload).1 place.key :=
  (agree_iff_first access parses).trans (clear_iff (place_key_stored place)).symm

/-- A MAP of two names, one of them twice. -/
theorem raw_scan_agrees_names :
    let payload : Bytes := [1, 97, 12, 7, 1, 98, 12, 8, 1, 97, 12, 9]
    Agree .readOnly payload (.name [97]) ∧ find_scan ⟨VAR_TYPE_MAP, payload⟩ (.name [97]) = .ok (.value ⟨VAR_TYPE_UINT, [7]⟩) := by
  have entries : raw_entries .map [1, 97, 12, 7, 1, 98, 12, 8, 1, 97, 12, 9] =
      ([(.name [97], ⟨VAR_TYPE_UINT, [7]⟩), (.name [98], ⟨VAR_TYPE_UINT, [8]⟩), (.name [97], ⟨VAR_TYPE_UINT, [9]⟩)], .pending []) := by decide
  refine ⟨(raw_scan_agrees_iff .readOnly _ (.name [97]) ⟨[], congrArg Prod.snd entries⟩).mpr ?_, by decide⟩
  exact (clear_iff (place_key_stored _)).mpr (by rw [show Place.kind (.name [97]) = .map from rfl, entries]; decide)

/-- A name with a NUL in it: `Get` finds it under what stands before the NUL, `Find` does not. -/
theorem raw_scan_differs : ∃ payload : Bytes, Parses .map payload ∧ ¬ Agree .readOnly payload (.name [97]) := by
  refine ⟨[3, 97, 0, 98, 12, 7], ⟨[], by decide⟩, ?_⟩
  rintro ⟨answer, scanned, got, -⟩
  have absent : find_scan ⟨VAR_TYPE_MAP, [3, 97, 0, 98, 12, 7]⟩ (.name [97]) = .ok .absent := by decide
  have present : get (.raw .readOnly ⟨VAR_TYPE_MAP, [3, 97, 0, 98, 12, 7]⟩) (.name [97]) = .ok (.value ⟨VAR_TYPE_UINT, [7]⟩) := by decide
  cases absent.symm.trans scanned
  cases present.symm.trans got

end TaskExplorer.RawScan
