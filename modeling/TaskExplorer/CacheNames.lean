import TaskExplorer.CacheHandles

/-!
# Names for handles

The string cache beside the numeric one, driven by the same calls with every id
replaced by a name. How a `QString` becomes UTF-8 and back is not modelled: it is
a parameter, and what is asked of it is asked of the names that are used.
-/

namespace TaskExplorer.CacheNames
open Codec OrderedMap VariantFormat VariantContainer
open VariantValue VariantCache CacheHandles

section Twins
variable {K N : Type} [LinearOrder K] [LinearOrder N]

def rename (name : K → N) : Op K → Op N
  | .beginRound scope => .beginRound scope
  | .write id field value => .write (name id) field value
  | .keep id => .keep (name id)
  | .finishRound => .finishRound
  | .clear => .clear
  | .clearScope scope => .clearScope scope

/-- The two caches, how many handles were given out, and the names that were
    sent. -/
structure Twins (K N : Type) [LinearOrder K] [LinearOrder N] where
  numeric : Cache K := {}
  named : Cache N := {}
  assigned : Nat := 0
  travelled : List N := []

def Twins.step (name : K → N) (toUtf8 : N → Bytes) (twins : Twins K N) (op : Op K) : Twins K N where
  numeric := CacheHandles.step VariantCache.numeric op twins.numeric
  named := CacheHandles.step (VariantCache.named toUtf8) (rename name op) twins.named
  assigned := twins.assigned + handlesGiven op twins.numeric
  travelled :=
    match op with
    | .finishRound => twins.travelled ++ (outcome (VariantCache.named toUtf8) twins.named).sent.map Prod.fst
    | _ => twins.travelled

def run (name : K → N) (toUtf8 : N → Bytes) (ops : List (Op K)) : Twins K N := ops.foldl (Twins.step name toUtf8) {}

/-! ## What the two should have in common -/

/-- The two containers hold the same entries, one under the handles of the ids
    and the other under their names, and each name is read back. -/
structure SameChanged (name : K → N) (toUtf8 : N → Bytes) (fromUtf8 : Bytes → N) (table : WireTable K)
    (changed changedStr : Variant) : Prop where
  complete : (raw_entries .index changed.payload).2 = .pending [] ∧ (raw_entries .map changedStr.payload).2 = .pending []
  handles : ∀ pair ∈ (raw_entries .index changed.payload).1, ∃ id handle, pair.1 = .id handle ∧ table.keys.get id = some handle
  names : ∀ pair ∈ (raw_entries .map changedStr.payload).1, ∃ id, pair.1 = .name (toUtf8 (name id)) ∧ fromUtf8 (toUtf8 (name id)) = name id
  renamed : ∀ text entry, (Key.name text, entry) ∈ (raw_entries .map changedStr.payload).1 ↔
    ∃ id handle, text = toUtf8 (name id) ∧ table.keys.get id = some handle ∧ (Key.id handle, entry) ∈ (raw_entries .index changed.payload).1

structure SameRemoved (name : K → N) (table : WireTable K) (removed : List UInt32) (removedStr : List N) : Prop where
  handles : ∀ handle ∈ removed, ∃ id, table.keys.get id = some handle
  names : ∀ text ∈ removedStr, ∃ id, text = name id
  renamed : ∀ id, name id ∈ removedStr ↔ ∃ handle, table.keys.get id = some handle ∧ handle ∈ removed

/-- What `FinishRound` gives for one cache is what it gives for the other, and
    only names that have travelled are reported as removed. -/
def Agree (name : K → N) (toUtf8 : N → Bytes) (fromUtf8 : Bytes → N) (twins : Twins K N) : Prop :=
  ∃ changed removed after changedStr removedStr afterStr,
    finish_round VariantCache.numeric twins.numeric = .ok (changed, removed, after) ∧
    finish_round (VariantCache.named toUtf8) twins.named = .ok (changedStr, removedStr, afterStr) ∧
    SameChanged name toUtf8 fromUtf8 after.table changed changedStr ∧
    SameRemoved name twins.numeric.table removed removedStr ∧
    ∀ text ∈ removedStr, text ∈ twins.travelled

/-! ## When they do -/

/-- A name that fits its length byte, holds no NUL, and is read back from UTF-8. -/
structure NameFits (toUtf8 : N → Bytes) (fromUtf8 : Bytes → N) (text : N) : Prop where
  short : (toUtf8 text).length < 256
  plain : (0 : UInt8) ∉ toUtf8 text
  back : fromUtf8 (toUtf8 text) = text

/-- Names that fit are written; an entry that a round forgets has travelled; and
    neither container reaches 4 GB. -/
def Meets (name : K → N) (toUtf8 : N → Bytes) (fromUtf8 : Bytes → N) (twins : Twins K N) : Op K → Prop
  | .write id _ _ => NameFits toUtf8 fromUtf8 (name id)
  | .finishRound =>
    (∀ id ∈ forgotten twins.numeric, (twins.numeric.table.keys.get id).isSome) ∧
      (entriesBuffer ((outcome VariantCache.numeric twins.numeric).sent.map (fun pair => (Key.id pair.1, pair.2)))).length < 2 ^ 32 ∧
      (entriesBuffer ((outcome (VariantCache.named toUtf8) twins.named).sent.map
        (fun pair => (Key.name (toUtf8 pair.1), pair.2)))).length < 2 ^ 32
  | _ => True

def AllMeet (name : K → N) (toUtf8 : N → Bytes) (fromUtf8 : Bytes → N) (twins : Twins K N) : List (Op K) → Prop
  | [] => True
  | op :: rest => Meets name toUtf8 fromUtf8 twins op ∧ AllMeet name toUtf8 fromUtf8 (twins.step name toUtf8 op) rest

/-! ## The string cache alone -/

private theorem take_all_named (toUtf8 : N → Bytes) (ids : List N) (table : WireTable N) :
    take_all (VariantCache.named toUtf8) ids table = (ids, table) := by
  induction ids with
  | nil => rfl
  | cons id rest ih =>
    rw [take_all]
    simp only [VariantCache.named] at ih ⊢
    rw [ih]
    rfl

private theorem wire_all_named (toUtf8 : N → Bytes) (ids : List N) (table : WireTable N) :
    wire_all (VariantCache.named toUtf8) ids table = (ids, table) := by
  induction ids with
  | nil => rfl
  | cons id rest ih =>
    rw [wire_all]
    simp only [VariantCache.named] at ih ⊢
    rw [ih]

theorem outcome_named (toUtf8 : N → Bytes) (cache : Cache N) :
    (outcome (VariantCache.named toUtf8) cache).removed = forgotten cache ∧
      (outcome (VariantCache.named toUtf8) cache).sent = cache.changed.entries := by
  simp only [outcome, take_all_named, wire_all_named]
  refine ⟨trivial, ?_⟩
  rw [← List.unzip_fst, ← List.unzip_snd]
  exact List.zip_unzip cache.changed.entries

/-! ## Step by step -/

/-- The string cache remembers under the names what the numeric one does under
    the ids, and every id with a handle has travelled under its name. -/
structure Linked (name : K → N) (toUtf8 : N → Bytes) (fromUtf8 : Bytes → N) (twins : Twins K N) : Prop where
  entries : OrdMap.Renamed name twins.numeric.entries twins.named.entries
  changed : OrdMap.Renamed name twins.numeric.changed twins.named.changed
  scope : twins.named.scope = twins.numeric.scope
  table : twins.numeric.table.Sound
  counted : twins.numeric.table.next.toNat = twins.assigned
  wired : ∀ id handle, twins.numeric.table.keys.get id = some handle → name id ∈ twins.travelled
  fits : ∀ id fields, twins.numeric.changed.get id = some fields → NameFits toUtf8 fromUtf8 (name id)

variable {name : K → N} {toUtf8 : N → Bytes} {fromUtf8 : Bytes → N} {twins : Twins K N}

private theorem linked_start (name : K → N) (toUtf8 : N → Bytes) (fromUtf8 : Bytes → N) :
    Linked name toUtf8 fromUtf8 ({} : Twins K N) where
  entries := OrdMap.renamed_empty
  changed := OrdMap.renamed_empty
  scope := rfl
  table := ⟨by simp, by simp⟩
  counted := rfl
  wired := by simp
  fits := by simp

private theorem entryOf_renamed (linked : Linked name toUtf8 fromUtf8 twins) (id : K) :
    entryOf (name id) twins.named = entryOf id twins.numeric := by
  rw [entryOf, entryOf, linked.entries.same]

private theorem mem_forgotten_renamed (linked : Linked name toUtf8 fromUtf8 twins) (id : K) :
    name id ∈ forgotten twins.named ↔ id ∈ forgotten twins.numeric := by
  rw [mem_forgotten, mem_forgotten, linked.entries.same, linked.scope]

private theorem forgotten_named (linked : Linked name toUtf8 fromUtf8 twins) {text : N} (member : text ∈ forgotten twins.named) :
    ∃ id ∈ forgotten twins.numeric, text = name id := by
  obtain ⟨entry, held, -⟩ := mem_forgotten.mp member
  obtain ⟨id, rfl⟩ := linked.entries.only text entry held
  exact ⟨id, (mem_forgotten_renamed linked id).mp member, rfl⟩

private theorem write_renamed (injective : Function.Injective name) (linked : Linked name toUtf8 fromUtf8 twins) (id : K)
    (field : UInt32) (value : Packed) :
    OrdMap.Renamed name (write id field value twins.numeric).entries (write (name id) field value twins.named).entries ∧
      OrdMap.Renamed name (write id field value twins.numeric).changed (write (name id) field value twins.named).changed := by
  have same := entryOf_renamed linked id
  by_cases unchanged : compare_to ((entryOf id twins.numeric).fields.get field) value
  · simp only [write, same, linked.scope, unchanged, if_true]
    exact ⟨OrdMap.renamed_insert injective linked.entries id _, linked.changed⟩
  · simp only [write, same, linked.scope, unchanged, linked.changed.same]
    exact ⟨OrdMap.renamed_insert injective linked.entries id _, OrdMap.renamed_insert injective linked.changed id _⟩

private theorem linked_quiet {op : Op K} (linked : Linked name toUtf8 fromUtf8 twins)
    (entries : OrdMap.Renamed name (step numeric op twins.numeric).entries (step (named toUtf8) (rename name op) twins.named).entries)
    (changed : OrdMap.Renamed name (step numeric op twins.numeric).changed (step (named toUtf8) (rename name op) twins.named).changed)
    (scope : (step (named toUtf8) (rename name op) twins.named).scope = (step numeric op twins.numeric).scope)
    (next : (step numeric op twins.numeric).table.next = twins.numeric.table.next) (given : handlesGiven op twins.numeric = 0)
    (kept : ∀ id handle, (step numeric op twins.numeric).table.keys.get id = some handle → twins.numeric.table.keys.get id = some handle)
    (same : (twins.step name toUtf8 op).travelled = twins.travelled)
    (fits : ∀ id fields, (step numeric op twins.numeric).changed.get id = some fields → NameFits toUtf8 fromUtf8 (name id)) :
    Linked name toUtf8 fromUtf8 (twins.step name toUtf8 op) where
  entries := entries
  changed := changed
  scope := scope
  table := by
    constructor
    · intro id other handle atId atOther
      exact linked.table.injective id other handle (kept id handle atId) (kept other handle atOther)
    · intro id handle held
      show handle ≤ (step numeric op twins.numeric).table.next
      rw [next]
      exact linked.table.bounded id handle (kept id handle held)
  counted := by
    show (step numeric op twins.numeric).table.next.toNat = twins.assigned + handlesGiven op twins.numeric
    rw [next, given]
    exact linked.counted
  wired id handle held := by
    rw [same]
    exact linked.wired id handle (kept id handle held)
  fits := fits

private theorem linked_finish (linked : Linked name toUtf8 fromUtf8 twins)
    (enough : twins.assigned + assignments twins.numeric < 2 ^ 32) :
    Linked name toUtf8 fromUtf8 (twins.step name toUtf8 .finishRound) := by
  have room : twins.numeric.table.next.toNat + assignments twins.numeric < 2 ^ 32 := by
    rw [linked.counted]
    exact enough
  obtain ⟨-, extended⟩ := outcome_spec linked.table room
  refine ⟨?_, OrdMap.renamed_empty, linked.scope, extended.sound, ?_, ?_, fun _ _ impossible => by simp [Twins.step, step, closed] at impossible⟩
  · show OrdMap.Renamed name (closed numeric twins.numeric).entries (closed (named toUtf8) twins.named).entries
    simp only [closed, linked.scope]
    exact OrdMap.renamed_filter linked.entries _
  · show (outcome numeric twins.numeric).table.next.toNat = twins.assigned + assignments twins.numeric
    rw [extended.counted, (swept_spec _).2.1, linked.counted]
    rfl
  · intro id handle held
    show name id ∈ twins.travelled ++ (outcome (named toUtf8) twins.named).sent.map Prod.fst
    cases changed : twins.numeric.changed.get id with
    | some fields =>
      refine List.mem_append_right _ ?_
      rw [(outcome_named toUtf8 twins.named).2]
      have present := linked.changed.same id
      rw [changed] at present
      exact List.mem_map.mpr ⟨_, OrdMap.mem_entries.mpr present, rfl⟩
    | none =>
      refine List.mem_append_left _ ?_
      have untouched : id ∉ twins.numeric.changed.entries.map Prod.fst := by
        intro member
        obtain ⟨⟨other, fields⟩, found, rfl⟩ := List.mem_map.mp member
        rw [OrdMap.mem_entries.mp found] at changed
        cases changed
      have before : (swept twins.numeric).keys.get id = some handle := by
        rw [← extended.others id untouched]
        exact held
      exact linked.wired id handle (swept_kept before).2

private theorem linked_step (injective : Function.Injective name) (linked : Linked name toUtf8 fromUtf8 twins) {op : Op K}
    (meets : Meets name toUtf8 fromUtf8 twins op) (enough : (twins.step name toUtf8 op).assigned < 2 ^ 32) :
    Linked name toUtf8 fromUtf8 (twins.step name toUtf8 op) := by
  cases op with
  | beginRound scope =>
    refine linked_quiet linked ?_ OrdMap.renamed_empty rfl rfl rfl (fun _ _ held => held) rfl (by simp [step, begin_round])
    exact OrdMap.renamed_mapValues linked.entries (fun entry => if entry.scope = scope then { entry with seen := false } else entry)
  | write id field value =>
    obtain ⟨entries, changed⟩ := write_renamed injective linked id field value
    have table : (write id field value twins.numeric).table = twins.numeric.table ∧
        (write id field value twins.numeric).scope = twins.numeric.scope := by
      simp only [write]
      split <;> exact ⟨rfl, rfl⟩
    have scope : (write (name id) field value twins.named).scope = twins.named.scope := by
      simp only [write]
      split <;> rfl
    refine linked_quiet linked entries changed ?_ ?_ rfl ?_ rfl ?_
    · exact scope.trans (linked.scope.trans table.2.symm)
    · show (write id field value twins.numeric).table.next = _
      rw [table.1]
    · intro other handle held
      replace held : (write id field value twins.numeric).table.keys.get other = some handle := held
      rw [table.1] at held
      exact held
    · intro other fields held
      by_cases same : other = id
      · subst same
        exact meets
      · have before : twins.numeric.changed.get other = some fields := by
          replace held : (write id field value twins.numeric).changed.get other = some fields := held
          simp only [write] at held
          split at held
          · exact held
          · simpa [Ne.symm same] using held
        exact linked.fits other fields before
  | keep id =>
    refine linked_quiet linked ?_ linked.changed linked.scope rfl rfl (fun _ _ held => held) rfl linked.fits
    show OrdMap.Renamed name (keep id twins.numeric).entries (keep (name id) twins.named).entries
    simp only [keep, entryOf_renamed linked id, linked.scope]
    exact OrdMap.renamed_insert injective linked.entries id _
  | finishRound => exact linked_finish linked enough
  | clear =>
    exact linked_quiet linked OrdMap.renamed_empty OrdMap.renamed_empty linked.scope rfl rfl (by simp [step, clear]) rfl
      (by simp [step, clear])
  | clearScope scope =>
    refine linked_quiet linked ?_ OrdMap.renamed_empty linked.scope rfl rfl ?_ rfl (by simp [step, clear_scope])
    · exact OrdMap.renamed_filter linked.entries (fun entry => decide (entry.scope ≠ scope))
    · intro id handle held
      simp only [step, clear_scope, OrdMap.get_filter, Option.filter_eq_some_iff] at held
      exact held.1

/-! ## At the end of a round -/

private theorem sameChanged (linked : Linked name toUtf8 fromUtf8 twins)
    (enough : twins.numeric.table.next.toNat + assignments twins.numeric < 2 ^ 32)
    {handles : List (Key × Packed)} {names : List (Key × Packed)}
    (read : handles = (outcome numeric twins.numeric).sent.map (fun pair => (Key.id pair.1, packFields pair.2)))
    (readStr : names = (outcome (named toUtf8) twins.named).sent.map (fun pair => (Key.name (toUtf8 pair.1), packFields pair.2))) :
    (∀ pair ∈ handles, ∃ id handle, pair.1 = .id handle ∧ (outcome numeric twins.numeric).table.keys.get id = some handle) ∧
      (∀ pair ∈ names, ∃ id, pair.1 = .name (toUtf8 (name id)) ∧ fromUtf8 (toUtf8 (name id)) = name id) ∧
      ∀ text entry, (Key.name text, entry) ∈ names ↔ ∃ id handle, text = toUtf8 (name id) ∧
        (outcome numeric twins.numeric).table.keys.get id = some handle ∧ (Key.id handle, entry) ∈ handles := by
  obtain ⟨related, extended⟩ := outcome_spec linked.table enough
  rw [(outcome_named toUtf8 twins.named).2] at readStr
  subst read readStr
  refine ⟨?_, ?_, ?_⟩
  · intro pair member
    obtain ⟨⟨handle, fields⟩, sent, rfl⟩ := List.mem_map.mp member
    obtain ⟨⟨id, others⟩, -, held, -⟩ := ListEdits.forall₂_mem_right related sent
    exact ⟨id, handle, rfl, held⟩
  · intro pair member
    obtain ⟨⟨text, fields⟩, sent, rfl⟩ := List.mem_map.mp member
    have held := OrdMap.mem_entries.mp sent
    obtain ⟨id, rfl⟩ := linked.changed.only text fields held
    rw [linked.changed.same] at held
    exact ⟨id, rfl, (linked.fits id fields held).back⟩
  · intro text entry
    constructor
    · intro member
      obtain ⟨⟨written, fields⟩, sent, same⟩ := List.mem_map.mp member
      cases same
      have held := OrdMap.mem_entries.mp sent
      obtain ⟨id, rfl⟩ := linked.changed.only written fields held
      rw [linked.changed.same] at held
      obtain ⟨⟨handle, others⟩, found, used, equal⟩ := ListEdits.forall₂_mem_left related (OrdMap.mem_entries.mpr held)
      cases equal
      exact ⟨id, handle, rfl, used, List.mem_map.mpr ⟨(handle, fields), found, rfl⟩⟩
    · rintro ⟨id, handle, rfl, used, member⟩
      obtain ⟨⟨other, fields⟩, sent, same⟩ := List.mem_map.mp member
      cases same
      obtain ⟨⟨user, others⟩, changed, held, equal⟩ := ListEdits.forall₂_mem_right related sent
      cases equal
      have owner : user = id := extended.sound.injective user id other held used
      subst owner
      refine List.mem_map.mpr ⟨(name user, fields), OrdMap.mem_entries.mpr ?_, rfl⟩
      rw [linked.changed.same]
      exact OrdMap.mem_entries.mp changed

private theorem agree_of_linked (linked : Linked name toUtf8 fromUtf8 twins) (meets : Meets name toUtf8 fromUtf8 twins .finishRound)
    (enough : twins.assigned + assignments twins.numeric < 2 ^ 32) : Agree name toUtf8 fromUtf8 twins := by
  obtain ⟨sent, short, shortStr⟩ := meets
  have room : twins.numeric.table.next.toNat + assignments twins.numeric < 2 ^ 32 := by
    rw [linked.counted]
    exact enough
  obtain ⟨removedStr, sentStr⟩ := outcome_named toUtf8 twins.named
  have finished := finish_round_eq (numeric : KeyType K UInt32) (fun _ => rfl) twins.numeric
  have finishedStr := finish_round_eq (named toUtf8) (fun _ => rfl) twins.named
  refine ⟨_, _, _, _, _, _, finished, finishedStr, ?_, ?_, ?_⟩
  · have keys : ∀ pair ∈ (outcome numeric twins.numeric).sent.map (fun pair => (Key.id pair.1, pair.2)),
        KeyFits .index pair.1 ∧ pair.1.stored = pair.1 := by
      intro pair member
      obtain ⟨source, -, rfl⟩ := List.mem_map.mp member
      exact ⟨trivial, rfl⟩
    have keysStr : ∀ pair ∈ (outcome (named toUtf8) twins.named).sent.map (fun pair => (Key.name (toUtf8 pair.1), pair.2)),
        KeyFits .map pair.1 ∧ pair.1.stored = pair.1 := by
      intro pair member
      rw [sentStr] at member
      obtain ⟨⟨text, fields⟩, source, rfl⟩ := List.mem_map.mp member
      have held := OrdMap.mem_entries.mp source
      obtain ⟨id, rfl⟩ := linked.changed.only text fields held
      rw [linked.changed.same] at held
      have fits := linked.fits id fields held
      exact ⟨fits.short, congrArg Key.name (c_str_of_plain fits.plain)⟩
    have read := raw_entries_entriesBuffer keys short
    have readStr := raw_entries_entriesBuffer keysStr shortStr
    simp only [List.map_map, Function.comp_def] at read readStr
    obtain ⟨handles, names, renamed⟩ := sameChanged linked room (congrArg Prod.fst read) (congrArg Prod.fst readStr)
    exact ⟨⟨congrArg Prod.snd read, congrArg Prod.snd readStr⟩, handles, names, renamed⟩
  · constructor
    · intro handle member
      obtain ⟨id, -, held⟩ := mem_removed.mp member
      exact ⟨id, held⟩
    · intro text member
      rw [removedStr] at member
      obtain ⟨id, -, rfl⟩ := forgotten_named linked member
      exact ⟨id, rfl⟩
    · intro id
      rw [removedStr, mem_forgotten_renamed linked id]
      constructor
      · intro gone
        obtain ⟨handle, held⟩ := Option.isSome_iff_exists.mp (sent id gone)
        exact ⟨handle, held, mem_removed.mpr ⟨id, gone, held⟩⟩
      · rintro ⟨handle, held, member⟩
        obtain ⟨other, gone, used⟩ := mem_removed.mp member
        exact linked.table.injective other id handle used held ▸ gone
  · intro text member
    rw [removedStr] at member
    obtain ⟨id, gone, rfl⟩ := forgotten_named linked member
    obtain ⟨handle, held⟩ := Option.isSome_iff_exists.mp (sent id gone)
    exact linked.wired id handle held

/-! ## Every run -/

private theorem assigned_mono (ops : List (Op K)) (twins : Twins K N) :
    twins.assigned ≤ (ops.foldl (Twins.step name toUtf8) twins).assigned := by
  induction ops generalizing twins with
  | nil => exact le_refl _
  | cons op rest ih => exact le_trans (Nat.le_add_right _ _) (ih (twins.step name toUtf8 op))

private theorem linked_run (injective : Function.Injective name) {ops : List (Op K)} {twins : Twins K N}
    (linked : Linked name toUtf8 fromUtf8 twins) (meet : AllMeet name toUtf8 fromUtf8 twins ops)
    (few : (ops.foldl (Twins.step name toUtf8) twins).assigned < 2 ^ 32) :
    Linked name toUtf8 fromUtf8 (ops.foldl (Twins.step name toUtf8) twins) := by
  induction ops generalizing twins with
  | nil => exact linked
  | cons op rest ih =>
    have next := linked_step injective linked meet.1 (lt_of_le_of_lt (assigned_mono rest _) few)
    exact ih next meet.2 few

private theorem allMeet_append {ops more : List (Op K)} {twins : Twins K N} (meet : AllMeet name toUtf8 fromUtf8 twins (ops ++ more)) :
    AllMeet name toUtf8 fromUtf8 twins ops ∧ AllMeet name toUtf8 fromUtf8 (ops.foldl (Twins.step name toUtf8) twins) more := by
  induction ops generalizing twins with
  | nil => exact ⟨trivial, meet⟩
  | cons op rest ih =>
    obtain ⟨before, after⟩ := ih meet.2
    exact ⟨⟨meet.1, before⟩, after⟩

/-- In every run whose names fit and whose forgotten entries have travelled, each
    `FinishRound` gives the same for the string cache as for the numeric one. -/
theorem caches_agree (injective : Function.Injective name) {ops : List (Op K)}
    (meet : AllMeet name toUtf8 fromUtf8 {} (ops ++ [.finishRound]))
    (few : (run name toUtf8 (ops ++ [.finishRound])).assigned < 2 ^ 32) : Agree name toUtf8 fromUtf8 (run name toUtf8 ops) := by
  obtain ⟨before, last, -⟩ := allMeet_append meet
  have split : run name toUtf8 (ops ++ [.finishRound]) = (run name toUtf8 ops).step name toUtf8 .finishRound := by
    simp [run, List.foldl_append]
  rw [split] at few
  have earlier : (run name toUtf8 ops).assigned < 2 ^ 32 := lt_of_le_of_lt (Nat.le_add_right _ _) few
  exact agree_of_linked (linked_run injective (linked_start name toUtf8 fromUtf8) before earlier) last few

end Twins

/-! ## Names of one letter, repeated -/

def letters (extra : Nat) (id : UInt64) : List UInt16 := List.replicate (id.toNat + extra) 0x61

/-- What `toUtf8` and `fromUtf8` do for ASCII text. -/
def asciiBytes (text : List UInt16) : Bytes := text.map (fun unit => UInt8.ofNat unit.toNat)

def asciiText (bytes : Bytes) : List UInt16 := bytes.map (fun byte => UInt16.ofNat byte.toNat)

private theorem letters_injective (extra : Nat) : Function.Injective (letters extra) := by
  intro left right same
  have lengths := congrArg List.length same
  simp only [letters, List.length_replicate] at lengths
  exact UInt64.toNat_inj.mp (by omega)

theorem caches_agree_removed :
    Agree (letters 1) asciiBytes asciiText (run (letters 1) asciiBytes
      [.beginRound 0, .write 1 1 ⟨VAR_TYPE_UINT, [5]⟩, .finishRound, .beginRound 0, .write 2 1 ⟨VAR_TYPE_UINT, [6]⟩]) := by
  refine caches_agree (letters_injective 1) ?_ (by decide)
  have fits (id : UInt64) (small : id = 1 ∨ id = 2) : NameFits asciiBytes asciiText (letters 1 id) := by
    rcases small with rfl | rfl <;> exact ⟨by decide, by decide, by decide⟩
  refine ⟨trivial, fits 1 (Or.inl rfl), ⟨?_, by decide, by decide⟩, trivial, fits 2 (Or.inr rfl), ⟨?_, by decide, by decide⟩, trivial⟩
  · intro id member
    replace member : id ∈ ([] : List UInt64) := member
    cases member
  · intro id member
    replace member : id ∈ [(1 : UInt64)] := member
    cases List.mem_singleton.mp member
    rfl

private theorem asciiBytes_letters (extra : Nat) (id : UInt64) :
    asciiBytes (letters extra id) = List.replicate (id.toNat + extra) 0x61 := List.map_replicate

private theorem long_name_read {text : Bytes} (long : text.length = 256) (plain : (0 : UInt8) ∉ text) :
    (raw_entries .map (cut (entriesBuffer [(Key.name text, OrdMap.empty.insert 1 ⟨VAR_TYPE_UINT, [5]⟩)]))).1 =
      [(.name [], ⟨VAR_TYPE_INDEX, [1, 0, 0, 0, 0x0C, 5]⟩)] := by
  have key : write_key (Key.name text).stored = [0] := by
    have stored : (Key.name text).stored = .name text := congrArg Key.name (c_str_of_plain plain)
    rw [stored, write_key, long]
    rfl
  have buffer : entriesBuffer [(Key.name text, OrdMap.empty.insert 1 ⟨VAR_TYPE_UINT, [5]⟩)] =
      write_key (Key.name text).stored ++ to_packet ⟨VAR_TYPE_INDEX, [1, 0, 0, 0, 0x0C, 5]⟩ ++ [] := rfl
  rw [buffer, key]
  rfl

private theorem changed_written (name : UInt64 → List UInt16) (value : Packed) :
    (run name asciiBytes [.beginRound 0, .write 0 1 value]).named.changed.entries = [(name 0, OrdMap.empty.insert 1 value)] := rfl

/-- The string cache reports as removed what was only ever kept, and a name of
    256 bytes is written as the empty one. -/
theorem caches_disagree :
    (Function.Injective (letters 1) ∧ ¬ Agree (letters 1) asciiBytes asciiText
      (run (letters 1) asciiBytes [.beginRound 0, .keep 1, .finishRound, .beginRound 0])) ∧
    (Function.Injective (letters 256) ∧ ¬ Agree (letters 256) asciiBytes asciiText
      (run (letters 256) asciiBytes [.beginRound 0, .write 0 1 ⟨VAR_TYPE_UINT, [5]⟩])) := by
  refine ⟨⟨letters_injective 1, ?_⟩, letters_injective 256, ?_⟩
  · rintro ⟨changed, removed, after, changedStr, removedStr, afterStr, finished, finishedStr, -, same, -⟩
    cases finished
    cases finishedStr
    obtain ⟨handle, -, impossible⟩ := (same.renamed 1).mp (by decide)
    cases impossible
  · rintro ⟨changed, removed, after, changedStr, removedStr, afterStr, finished, finishedStr, same, -, -⟩
    have spelled := finish_round_eq (named asciiBytes) (fun _ => rfl)
      (run (letters 256) asciiBytes [.beginRound 0, .write 0 1 ⟨VAR_TYPE_UINT, [5]⟩]).named
    rw [finishedStr, (outcome_named asciiBytes _).2, changed_written] at spelled
    cases spelled
    have long : (asciiBytes (letters 256 0)).length = 256 := by
      rw [asciiBytes_letters, List.length_replicate]
      rfl
    have plain : (0 : UInt8) ∉ asciiBytes (letters 256 0) := by
      rw [asciiBytes_letters]
      intro member
      exact absurd (List.eq_of_mem_replicate member) (by decide)
    have read := long_name_read long plain
    have names := same.names
    simp only [Variant.payload, List.map_cons, List.map_nil, VariantCache.named] at names
    rw [read] at names
    obtain ⟨id, empty, -⟩ := names _ (List.mem_singleton_self _)
    rw [asciiBytes_letters, Key.name.injEq] at empty
    have lengths := congrArg List.length empty
    rw [List.length_replicate] at lengths
    exact absurd lengths (by simp)

end TaskExplorer.CacheNames
