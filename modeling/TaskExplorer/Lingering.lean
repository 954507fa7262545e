import TaskExplorer.OrderedMap

/-!
# Lists that forget slowly

A list is refreshed from samples. What a sample does not have any more is marked with
the tick at which it was missed, and is taken off the list only when the mark has become
old. The refresh takes every item of the sample out of a copy of the list, and what
is left over in the copy was missed.
-/

namespace TaskExplorer.Lingering
open OrderedMap

/-- An object and when it was marked for removal; 0 stands for not marked. -/
structure Listed (β : Type) where
  object : β
  stamp : Nat
deriving DecidableEq, Repr

/-- The mark is older than the persistence time. The difference of ticks is taken in
    64 bits. -/
def can_be_removed (persistence now stamp : Nat) : Bool :=
  decide (stamp ≠ 0) && decide (persistence < (now + 2 ^ 64 - stamp) % 2 ^ 64)

/-- What a sample says about a key. -/
structure Reading (K β : Type) where
  key : K
  /-- The object that is made when there is none; making one may fail. -/
  made : Option β
  /-- The refresh of an object. -/
  changed : β → β := id

section
variable {K β : Type} [LinearOrder K]

/-- The list and what of it was not found yet. -/
structure Taking (K β : Type) [LinearOrder K] where
  list : OrdMap K (Listed β)
  old : OrdMap K (Listed β)

def take_one (taking : Taking K β) (reading : Reading K β) : Taking K β :=
  match taking.old.get reading.key with
  | some item =>
    ⟨taking.list.insert reading.key { item with object := reading.changed item.object }, taking.old.erase reading.key⟩
  | none =>
    match reading.made with
    | some object => { taking with list := taking.list.insert reading.key ⟨reading.changed object, 0⟩ }
    | none => taking

def take_all (list : OrdMap K (Listed β)) (readings : List (Reading K β)) : Taking K β :=
  readings.foldl take_one ⟨list, list⟩

/-- The list and the keys that were taken off it. -/
structure Purging (K β : Type) [LinearOrder K] where
  list : OrdMap K (Listed β)
  removed : List K

def purge_one (persistence now : Nat) (purging : Purging K β) (key : K) : Purging K β :=
  match purging.list.get key with
  | none => purging
  | some item =>
    if can_be_removed persistence now item.stamp then ⟨purging.list.erase key, purging.removed ++ [key]⟩
    else if item.stamp = 0 then { purging with list := purging.list.insert key { item with stamp := now } }
    else purging

def refresh (persistence now : Nat) (readings : List (Reading K β)) (list : OrdMap K (Listed β)) : Purging K β :=
  let taken := take_all list readings
  (taken.old.entries.map Prod.fst).foldl (purge_one persistence now) ⟨taken.list, []⟩

/-! ## Taking -/

variable {key : K}

theorem take_one_other (taking : Taking K β) {reading : Reading K β} (other : reading.key ≠ key) :
    (take_one taking reading).list.get key = taking.list.get key ∧ (take_one taking reading).old.get key = taking.old.get key := by
  rw [take_one]
  cases taking.old.get reading.key with
  | some item => simp [other]
  | none =>
    cases reading.made with
    | some object => simp [other]
    | none => simp

theorem take_all_absent {readings : List (Reading K β)} (absent : key ∉ readings.map Reading.key) (taking : Taking K β)
    :
    (readings.foldl take_one taking).list.get key = taking.list.get key ∧
      (readings.foldl take_one taking).old.get key = taking.old.get key := by
  induction readings generalizing taking with
  | nil => exact ⟨rfl, rfl⟩
  | cons reading rest ih =>
    rw [List.map_cons, List.mem_cons, not_or] at absent
    obtain ⟨list, old⟩ := take_one_other taking (Ne.symm absent.1)
    obtain ⟨listRest, oldRest⟩ := ih absent.2 (take_one taking reading)
    rw [List.foldl_cons]
    exact ⟨listRest.trans list, oldRest.trans old⟩

theorem take_all_old_none (readings : List (Reading K β)) {taking : Taking K β} (gone : taking.old.get key = none) :
    (readings.foldl take_one taking).old.get key = none := by
  induction readings generalizing taking with
  | nil => exact gone
  | cons reading rest ih =>
    rw [List.foldl_cons]
    apply ih
    by_cases same : reading.key = key
    · rw [take_one, same, gone]
      cases reading.made <;> exact gone
    · exact (take_one_other taking same).2.trans gone

theorem take_one_old (taking : Taking K β) (reading : Reading K β) : (take_one taking reading).old.get reading.key = none := by
  rw [take_one]
  cases found : taking.old.get reading.key with
  | some item => simp
  | none =>
    cases reading.made with
    | some object => exact found
    | none => exact found

theorem take_all_old_sampled {readings : List (Reading K β)} (sampled : key ∈ readings.map Reading.key)
    (taking : Taking K β) : (readings.foldl take_one taking).old.get key = none := by
  induction readings generalizing taking with
  | nil => cases sampled
  | cons reading rest ih =>
    rw [List.foldl_cons]
    rcases List.mem_cons.mp sampled with rfl | later
    · exact take_all_old_none rest (take_one_old taking reading)
    · exact ih later _

theorem take_all_listed (readings : List (Reading K β)) (taking : Taking K β) {item : Listed β}
    (there : taking.list.get key = some item) (same : ∀ other, taking.old.get key = some other → other = item) :
    ∃ later, (readings.foldl take_one taking).list.get key = some later ∧ (later.stamp = item.stamp ∨ later.stamp = 0) := by
  induction readings generalizing taking item with
  | nil => exact ⟨item, there, .inl rfl⟩
  | cons reading rest ih =>
    rw [List.foldl_cons]
    by_cases here : reading.key = key
    · cases found : taking.old.get reading.key with
      | some other =>
        have isItem := same other (by rw [← here]; exact found)
        subst isItem
        have one : take_one taking reading = ⟨taking.list.insert reading.key { other with object := reading.changed other.object },
            taking.old.erase reading.key⟩ := by rw [take_one, found]
        have next : (take_one taking reading).list.get key = some { other with object := reading.changed other.object } := by
          rw [one]
          simp [here]
        obtain ⟨later, listed, stamp⟩ := ih (take_one taking reading) next (by rw [one]; simp [here])
        exact ⟨later, listed, stamp⟩
      | none =>
        cases made : reading.made with
        | none =>
          have one : take_one taking reading = taking := by rw [take_one, found, made]
          rw [one]
          exact ih taking there same
        | some object =>
          have one : take_one taking reading = { taking with list := taking.list.insert reading.key ⟨reading.changed object, 0⟩ } := by
            rw [take_one, found, made]
          have next : (take_one taking reading).list.get key = some ⟨reading.changed object, 0⟩ := by
            rw [one]
            simp [here]
          rw [here] at found
          obtain ⟨later, listed, stamp⟩ := ih (take_one taking reading) next (by rw [one, found]; simp)
          exact ⟨later, listed, .inr (by rcases stamp with zero | zero <;> exact zero)⟩
    · obtain ⟨list, old⟩ := take_one_other taking here
      exact ih (take_one taking reading) (list.trans there) (by rw [old]; exact same)

theorem take_all_new (readings : List (Reading K β)) (taking : Taking K β) (absent : taking.list.get key = none)
    (gone : taking.old.get key = none) :
    (∀ item, (readings.foldl take_one taking).list.get key = some item → item.stamp = 0) ∧
      (((readings.foldl take_one taking).list.get key).isSome ↔ ∃ reading ∈ readings, reading.key = key ∧ reading.made.isSome) := by
  induction readings generalizing taking with
  | nil => simp [absent]
  | cons reading rest ih =>
    rw [List.foldl_cons]
    by_cases here : reading.key = key
    · have found : taking.old.get reading.key = none := by rw [here]; exact gone
      cases made : reading.made with
      | none =>
        have one : take_one taking reading = taking := by rw [take_one, found, made]
        obtain ⟨unmarked, listed⟩ := ih taking absent gone
        rw [one]
        refine ⟨unmarked, listed.trans ?_⟩
        simp [made]
      | some object =>
        have one : take_one taking reading = { taking with list := taking.list.insert reading.key ⟨reading.changed object, 0⟩ } := by
          rw [take_one, found, made]
        have next : (take_one taking reading).list.get key = some ⟨reading.changed object, 0⟩ := by
          rw [one]
          simp [here]
        obtain ⟨later, listed, stamp⟩ := take_all_listed rest (take_one taking reading) next (by rw [one, gone]; simp)
        rw [listed]
        refine ⟨?_, ?_⟩
        · rintro item (⟨⟩)
          rcases stamp with zero | zero <;> exact zero
        · simp only [Option.isSome_some, true_iff]
          exact ⟨reading, List.mem_cons_self, here, by rw [made]; rfl⟩
    · obtain ⟨list, old⟩ := take_one_other taking here
      obtain ⟨unmarked, listed⟩ := ih (take_one taking reading) (list.trans absent) (old.trans gone)
      refine ⟨unmarked, listed.trans ?_⟩
      simp [here]

/-! ## Purging -/

/-- What becomes of an item that was missed. -/
def aged (persistence now : Nat) (item : Listed β) : Option (Listed β) :=
  if can_be_removed persistence now item.stamp then none
  else if item.stamp = 0 then some { item with stamp := now } else some item

theorem purge_one_other (persistence now : Nat) (purging : Purging K β) {other : K} (differs : key ≠ other) :
    (purge_one persistence now purging key).list.get other = purging.list.get other := by
  rw [purge_one]
  cases purging.list.get key with
  | none => rfl
  | some item =>
    dsimp only
    split_ifs <;> simp [differs]

theorem purge_one_list (persistence now : Nat) (purging : Purging K β) (key : K) :
    (purge_one persistence now purging key).list.get key = (purging.list.get key).bind (aged persistence now) := by
  rw [purge_one]
  cases found : purging.list.get key with
  | none => simp [found]
  | some item =>
    simp only [Option.bind_some, aged]
    split_ifs <;> simp [found]

theorem purge_one_removed (persistence now : Nat) (purging : Purging K β) (key other : K) :
    other ∈ (purge_one persistence now purging key).removed ↔ other ∈ purging.removed ∨
      (other = key ∧ ∃ item, purging.list.get key = some item ∧ can_be_removed persistence now item.stamp) := by
  rw [purge_one]
  cases found : purging.list.get key with
  | none => simp
  | some item =>
    dsimp only
    by_cases old : can_be_removed persistence now item.stamp
    · rw [if_pos old]
      simp [old]
    · rw [if_neg old]
      split_ifs <;> simp [old]

theorem purge_all {keys : List K} (distinct : keys.Nodup) (persistence now : Nat) (purging : Purging K β) (key : K) :
    ((keys.foldl (purge_one persistence now) purging).list.get key =
      if key ∈ keys then (purging.list.get key).bind (aged persistence now) else purging.list.get key) ∧
    (key ∈ (keys.foldl (purge_one persistence now) purging).removed ↔ key ∈ purging.removed ∨
      (key ∈ keys ∧ ∃ item, purging.list.get key = some item ∧ can_be_removed persistence now item.stamp)) := by
  induction keys generalizing purging with
  | nil => simp
  | cons first rest ih =>
    obtain ⟨once, distinct⟩ := List.nodup_cons.mp distinct
    obtain ⟨list, removed⟩ := ih distinct (purge_one persistence now purging first)
    rw [List.foldl_cons, list, removed, purge_one_removed]
    by_cases here : key = first
    · subst here
      rw [if_neg once, if_pos List.mem_cons_self, purge_one_list]
      refine ⟨rfl, ?_⟩
      simp [once]
    · rw [purge_one_other persistence now purging (Ne.symm here)]
      simp [here]

/-! ## The refresh -/

section
variable (persistence now : Nat) (readings : List (Reading K β)) (list : OrdMap K (Listed β))

/-- The items of the sample. -/
def Sampled (readings : List (Reading K β)) (key : K) : Prop := key ∈ readings.map Reading.key

theorem refresh_absent {key : K} (absent : ¬ Sampled readings key) :
    (refresh persistence now readings list).list.get key = (list.get key).bind (aged persistence now) := by
  obtain ⟨same, left⟩ := take_all_absent absent ⟨list, list⟩
  have distinct := (take_all list readings).old.keys_nodup
  rw [refresh, (purge_all distinct persistence now _ key).1]
  change (if key ∈ (take_all list readings).old.entries.map Prod.fst then
    ((take_all list readings).list.get key).bind (aged persistence now) else (take_all list readings).list.get key) = _
  rw [take_all, same]
  cases found : list.get key with
  | none => simp
  | some item =>
    rw [if_pos]
    exact List.mem_map.mpr ⟨(key, item), OrdMap.mem_entries.mpr (left.trans found), rfl⟩

theorem refresh_sampled {key : K} (sampled : Sampled readings key) :
    (refresh persistence now readings list).list.get key = (take_all list readings).list.get key := by
  have left : (take_all list readings).old.get key = none := take_all_old_sampled sampled ⟨list, list⟩
  have distinct := (take_all list readings).old.keys_nodup
  rw [refresh, (purge_all distinct persistence now _ key).1, if_neg]
  intro member
  obtain ⟨⟨other, item⟩, among, rfl⟩ := List.mem_map.mp member
  rw [OrdMap.mem_entries] at among
  cases left.symm.trans among

theorem refresh_removed (key : K) : key ∈ (refresh persistence now readings list).removed ↔
    ¬ Sampled readings key ∧ ∃ item, list.get key = some item ∧ can_be_removed persistence now item.stamp := by
  have distinct := (take_all list readings).old.keys_nodup
  rw [refresh, (purge_all distinct persistence now _ key).2]
  simp only [List.not_mem_nil, false_or]
  by_cases sampled : Sampled readings key
  · have left : (take_all list readings).old.get key = none := take_all_old_sampled sampled ⟨list, list⟩
    constructor
    · rintro ⟨member, -⟩
      obtain ⟨⟨other, item⟩, among, rfl⟩ := List.mem_map.mp member
      rw [OrdMap.mem_entries] at among
      cases left.symm.trans among
    · rintro ⟨absent, -⟩
      exact absurd sampled absent
  · obtain ⟨same, left⟩ := take_all_absent sampled ⟨list, list⟩
    rw [take_all, same]
    constructor
    · rintro ⟨-, old⟩
      exact ⟨sampled, old⟩
    · rintro ⟨-, item, found, old⟩
      exact ⟨List.mem_map.mpr ⟨(key, item), OrdMap.mem_entries.mpr (left.trans found), rfl⟩, item, found, old⟩

theorem refresh_once (distinct : (readings.map Reading.key).Nodup) {reading : Reading K β} (member : reading ∈ readings) :
    (refresh persistence now readings list).list.get reading.key =
      match list.get reading.key with
      | some item => some { item with object := reading.changed item.object }
      | none => reading.made.map (fun object => ⟨reading.changed object, 0⟩) := by
  rw [refresh_sampled persistence now readings list (List.mem_map.mpr ⟨reading, member, rfl⟩), take_all]
  obtain ⟨before, after, rfl⟩ := List.append_of_mem member
  rw [List.map_append, List.map_cons, List.nodup_append, List.nodup_cons] at distinct
  obtain ⟨-, ⟨notAfter, -⟩, apart⟩ := distinct
  have notBefore : reading.key ∉ before.map Reading.key := fun early => apart _ early _ List.mem_cons_self rfl
  rw [List.foldl_append, List.foldl_cons, (take_all_absent notAfter _).1]
  obtain ⟨sameList, sameOld⟩ := take_all_absent notBefore ⟨list, list⟩
  rw [take_one, sameOld]
  cases found : list.get reading.key with
  | some item => simp
  | none =>
    cases reading.made with
    | some object => simp
    | none =>
      dsimp only [Option.map_none]
      rw [sameList]
      exact found

theorem refresh_object {key : K} {later : Listed β} (found : (refresh persistence now readings list).list.get key = some later) :
    key ∉ (refresh persistence now readings list).removed ∧
      ∃ item, (take_all list readings).list.get key = some item ∧ item.object = later.object := by
  by_cases sampled : Sampled readings key
  · rw [refresh_sampled persistence now readings list sampled] at found
    refine ⟨fun removed => ?_, later, found, rfl⟩
    exact ((refresh_removed persistence now readings list key).mp removed).1 sampled
  · rw [refresh_absent persistence now readings list sampled] at found
    obtain ⟨item, there, isAged⟩ := Option.bind_eq_some_iff.mp found
    have same := (take_all_absent sampled ⟨list, list⟩).1.trans there
    rw [aged] at isAged
    by_cases old : can_be_removed persistence now item.stamp = true
    · rw [if_pos old] at isAged
      cases isAged
    · rw [if_neg old] at isAged
      refine ⟨fun removed => ?_, item, same, ?_⟩
      · obtain ⟨-, other, also, isOld⟩ := (refresh_removed persistence now readings list key).mp removed
        cases there.symm.trans also
        exact old isOld
      · split_ifs at isAged <;> cases isAged <;> rfl

theorem refresh_stays {key : K} {item : Listed β} (found : (take_all list readings).list.get key = some item) :
    key ∈ (refresh persistence now readings list).removed ∨
      ∃ later, (refresh persistence now readings list).list.get key = some later ∧ later.object = item.object := by
  by_cases sampled : Sampled readings key
  · rw [refresh_sampled persistence now readings list sampled]
    exact .inr ⟨item, found, rfl⟩
  · have there : list.get key = some item := (take_all_absent sampled ⟨list, list⟩).1.symm.trans found
    rw [refresh_absent persistence now readings list sampled, there, Option.bind_some, aged]
    by_cases old : can_be_removed persistence now item.stamp = true
    · exact .inl ((refresh_removed persistence now readings list key).mpr ⟨sampled, item, there, old⟩)
    · rw [if_neg old]
      split_ifs
      · exact .inr ⟨_, rfl, rfl⟩
      · exact .inr ⟨_, rfl, rfl⟩

end

end

/-! ## The history of a mark -/

section
variable {K : Type} {sampled present : K → Prop} [DecidablePred sampled] {persistence clock now : Nat}
  {since before after : K → Option Nat}

/-- The tick from which on every sample was without the key. -/
def missing (now : Nat) (sampled : K → Prop) [DecidablePred sampled] (since : K → Option Nat) (key : K) : Option Nat :=
  if sampled key then none else some ((since key).getD now)

/-- What a refresh does to the marks of a list. -/
structure Refreshed (persistence now : Nat) (sampled : K → Prop) (before after : K → Option Nat) : Prop where
  known : ∀ key stamp, sampled key → before key = some stamp → ∃ later, after key = some later ∧ (later = stamp ∨ later = 0)
  fresh : ∀ key stamp, before key = none → after key = some stamp → sampled key ∧ stamp = 0
  missed : ∀ key, ¬ sampled key → before key = some 0 → after key = some now
  kept : ∀ key stamp, ¬ sampled key → before key = some stamp → stamp ≠ 0 →
    after key = some stamp ∨ (after key = none ∧ can_be_removed persistence now stamp)

/-- A mark is as old as the absence of its key. -/
def Tracked (clock : Nat) (since marks : K → Option Nat) : Prop :=
  ∀ key stamp, marks key = some stamp → stamp ≤ clock ∧ (stamp = 0 → since key = none) ∧ (stamp ≠ 0 → since key = some stamp)

/-- Nothing comes back while it is marked, and no mark is made at tick 0. -/
structure Steady (now : Nat) (sampled : K → Prop) (before : K → Option Nat) : Prop where
  back : ∀ key stamp, sampled key → before key = some stamp → stamp = 0
  tick : ∀ key, ¬ sampled key → before key = some 0 → now ≠ 0

/-- The marks say which items are missing from the sample. -/
structure Exact (persistence now : Nat) (sampled present : K → Prop) [DecidablePred sampled] (since before after : K → Option Nat) :
    Prop where
  listed : ∀ key, present key → after key = some 0
  marked : ∀ key stamp, ¬ sampled key → after key = some stamp → stamp ≠ 0
  left : ∀ key stamp, before key = some stamp → after key = none →
    ∃ first, missing now sampled since key = some first ∧ first + persistence < now

omit [DecidablePred sampled] in
theorem tracked_none (clock : Nat) (since : K → Option Nat) : Tracked clock since (fun _ => none) := by
  intro key stamp impossible
  cases impossible

omit [DecidablePred sampled] in
theorem Tracked.later {marks : K → Option Nat} (tracked : Tracked clock since marks) (after : clock ≤ now) : Tracked now since marks := by
  intro key stamp found
  obtain ⟨past, rest⟩ := tracked key stamp found
  exact ⟨Nat.le_trans past after, rest⟩

theorem elapsed {stamp : Nat} (past : stamp ≤ now) (bounded : now < 2 ^ 64) (old : can_be_removed persistence now stamp = true) :
    stamp + persistence < now := by
  rw [can_be_removed, Bool.and_eq_true, decide_eq_true_iff, decide_eq_true_iff] at old
  have difference : (now + 2 ^ 64 - stamp) % 2 ^ 64 = now - stamp := by omega
  omega

theorem Refreshed.tracked (refreshed : Refreshed persistence now sampled before after) (steady : Steady now sampled before)
    (tracked : Tracked clock since before) (later : clock ≤ now) : Tracked now (missing now sampled since) after := by
  intro key stamp found
  cases old : before key with
  | none =>
    obtain ⟨here, rfl⟩ := refreshed.fresh key stamp old found
    exact ⟨Nat.zero_le now, fun _ => by rw [missing, if_pos here], fun nonzero => absurd rfl nonzero⟩
  | some mark =>
    obtain ⟨past, unmarked, marked⟩ := tracked key mark old
    by_cases here : sampled key
    · have zero := steady.back key mark here old
      obtain ⟨another, also, same⟩ := refreshed.known key mark here old
      cases found.symm.trans also
      have isZero : stamp = 0 := by rcases same with same | same <;> omega
      exact ⟨by omega, fun _ => by rw [missing, if_pos here], fun nonzero => absurd isZero nonzero⟩
    · rw [missing, if_neg here]
      by_cases zero : mark = 0
      · subst zero
        have nonzero := steady.tick key here old
        cases found.symm.trans (refreshed.missed key here old)
        refine ⟨Nat.le_refl _, fun isZero => absurd isZero nonzero, fun _ => ?_⟩
        rw [unmarked rfl]
        rfl
      · rcases refreshed.kept key mark here old zero with same | ⟨gone, -⟩
        · cases found.symm.trans same
          refine ⟨by omega, fun isZero => absurd isZero zero, fun _ => ?_⟩
          rw [marked zero]
          rfl
        · cases found.symm.trans gone

theorem Refreshed.exact (refreshed : Refreshed persistence now sampled before after) (steady : Steady now sampled before)
    (tracked : Tracked clock since before) (later : clock ≤ now) (bounded : now < 2 ^ 64)
    (there : ∀ key, present key → sampled key ∧ after key ≠ none) : Exact persistence now sampled present since before after where
  listed key isPresent := by
    obtain ⟨here, isListed⟩ := there key isPresent
    obtain ⟨stamp, found⟩ := Option.ne_none_iff_exists'.mp isListed
    obtain ⟨-, -, marked⟩ := refreshed.tracked steady tracked later key stamp found
    by_cases zero : stamp = 0
    · rw [found, zero]
    · have impossible := marked zero
      rw [missing, if_pos here] at impossible
      cases impossible
  marked key stamp absent found := by
    intro zero
    obtain ⟨-, unmarked, -⟩ := refreshed.tracked steady tracked later key stamp found
    have impossible := unmarked zero
    rw [missing, if_neg absent] at impossible
    cases impossible
  left key stamp old gone := by
    by_cases here : sampled key
    · obtain ⟨another, found, -⟩ := refreshed.known key stamp here old
      cases gone.symm.trans found
    · by_cases zero : stamp = 0
      · subst zero
        cases gone.symm.trans (refreshed.missed key here old)
      · rcases refreshed.kept key stamp here old zero with same | ⟨-, expired⟩
        · cases gone.symm.trans same
        · obtain ⟨past, -, marked⟩ := tracked key stamp old
          refine ⟨stamp, ?_, elapsed (by omega) bounded expired⟩
          rw [missing, if_neg here, marked zero]
          rfl

end

section
variable {K β : Type} [LinearOrder K] (persistence now : Nat) (readings : List (Reading K β)) (list : OrdMap K (Listed β))

/-- The marks of a list. -/
def marks (list : OrdMap K (Listed β)) (key : K) : Option Nat := (list.get key).map Listed.stamp

instance : DecidablePred (Sampled readings) := fun key => inferInstanceAs (Decidable (key ∈ readings.map Reading.key))

/-- The key is in the sample, and there is an object for it or one could be made. -/
def Present (readings : List (Reading K β)) (list : OrdMap K (Listed β)) (key : K) : Prop :=
  Sampled readings key ∧ ((list.get key).isSome ∨ ∃ reading ∈ readings, reading.key = key ∧ reading.made.isSome)

theorem refresh_refreshed : Refreshed persistence now (Sampled readings) (marks list) (marks (refresh persistence now readings list).list) where
  known key stamp sampled found := by
    obtain ⟨item, there, rfl⟩ := Option.map_eq_some_iff.mp found
    obtain ⟨later, listed, same⟩ := take_all_listed readings ⟨list, list⟩ there (fun other also => by cases there.symm.trans also; rfl)
    rw [marks, refresh_sampled persistence now readings list sampled]
    exact ⟨later.stamp, by rw [take_all, listed]; rfl, same⟩
  fresh key stamp absent found := by
    have none : list.get key = none := by
      rw [marks, Option.map_eq_none_iff] at absent
      exact absent
    obtain ⟨item, there, rfl⟩ := Option.map_eq_some_iff.mp found
    by_cases sampled : Sampled readings key
    · rw [refresh_sampled persistence now readings list sampled] at there
      exact ⟨sampled, (take_all_new readings ⟨list, list⟩ none none).1 item there⟩
    · rw [refresh_absent persistence now readings list sampled, none] at there
      cases there
  missed key absent found := by
    obtain ⟨item, there, zero⟩ := Option.map_eq_some_iff.mp found
    rw [marks, refresh_absent persistence now readings list absent, there, Option.bind_some, aged, zero]
    rfl
  kept key stamp absent found nonzero := by
    obtain ⟨item, there, rfl⟩ := Option.map_eq_some_iff.mp found
    rw [marks, refresh_absent persistence now readings list absent, there, Option.bind_some, aged]
    by_cases old : can_be_removed persistence now item.stamp
    · rw [if_pos old]
      exact .inr ⟨rfl, old⟩
    · rw [if_neg old, if_neg nonzero]
      exact .inl rfl

theorem refresh_present {key : K} (there : Present readings list key) :
    Sampled readings key ∧ marks (refresh persistence now readings list).list key ≠ none := by
  obtain ⟨sampled, which⟩ := there
  refine ⟨sampled, ?_⟩
  rw [marks, refresh_sampled persistence now readings list sampled, ne_eq, Option.map_eq_none_iff, ← ne_eq]
  cases found : list.get key with
  | some item =>
    obtain ⟨later, listed, -⟩ := take_all_listed readings ⟨list, list⟩ found (fun other also => by cases found.symm.trans also; rfl)
    rw [take_all, listed]
    exact Option.some_ne_none later
  | none =>
    rw [found] at which
    rcases which with impossible | made
    · cases impossible
    · exact Option.isSome_iff_ne_none.mp ((take_all_new readings ⟨list, list⟩ found found).2.mpr made)

theorem refresh_reported {key : K} (reported : key ∈ (refresh persistence now readings list).removed) :
    marks (refresh persistence now readings list).list key = none := by
  obtain ⟨absent, item, found, old⟩ := (refresh_removed persistence now readings list key).mp reported
  rw [marks, refresh_absent persistence now readings list absent, found, Option.bind_some, aged, if_pos old]
  rfl

end

end TaskExplorer.Lingering
