import TaskExplorer.ProcessModel

/-!
# The paths of Linux processes

A Linux process takes another for its parent when the other is another process and was not
created after it. Two that were created at the same time can then be parents of each other.
-/

namespace TaskExplorer.ProcessPaths
open Forest OrderedMap ProcessModel Relation

/-! ## Ways up that end -/

section Climbing
variable {β α : Type} {up : β → Option β} {label : β → α} {base : β → List α}

theorem short_above {fuel : Nat} {cur above : β} (short : Short up fuel cur) (path : TransGen (fun cur parent => up cur = some parent) cur above) :
    ∃ less < fuel, Short up less above := by
  induction path with
  | single first =>
    cases fuel with
    | zero => exact short.elim
    | succ fuel => exact ⟨fuel, Nat.lt_succ_self fuel, short _ first⟩
  | tail _ last ih =>
    obtain ⟨less, isLess, shortLess⟩ := ih
    cases less with
    | zero => exact shortLess.elim
    | succ less => exact ⟨less, by omega, shortLess _ last⟩

theorem no_cycle_of_short {fuel : Nat} {cur : β} (short : Short up fuel cur) : ¬ TransGen (fun cur parent => up cur = some parent) cur cur := by
  intro cycle
  induction fuel using Nat.strong_induction_on with
  | _ fuel ih =>
    obtain ⟨less, isLess, shortLess⟩ := short_above short cycle
    exact ih less isLess shortLess

theorem mem_make_path {fuel : Nat} {cur : β} {step : α} (member : step ∈ make_path up label base fuel cur) :
    (∃ top, step ∈ base top) ∨ ∃ above, TransGen (fun cur parent => up cur = some parent) cur above ∧ step = label above := by
  induction fuel generalizing cur with
  | zero => cases member
  | succ fuel ih =>
    rw [make_path] at member
    cases isParent : up cur with
    | none =>
      rw [isParent] at member
      exact .inl ⟨cur, member⟩
    | some parent =>
      rw [isParent] at member
      rcases List.mem_append.mp member with upper | own
      · rcases ih upper with onBase | ⟨above, path, isStep⟩
        · exact .inl onBase
        · exact .inr ⟨above, path.head isParent, isStep⟩
      · exact .inr ⟨parent, .single isParent, List.mem_singleton.mp own⟩

theorem make_path_nodup {carrier : List β} (closed : ∀ cur ∈ carrier, ∀ parent, up cur = some parent → parent ∈ carrier)
    (apart : ∀ one ∈ carrier, ∀ other ∈ carrier, label one = label other → one = other) (bases : ∀ cur, (base cur).Nodup)
    (others : ∀ top cur, label cur ∉ base top) {fuel : Nat} {cur : β} (member : cur ∈ carrier) (short : Short up fuel cur) :
    (make_path up label base fuel cur).Nodup := by
  have above : ∀ {cur above : β}, TransGen (fun cur parent => up cur = some parent) cur above → cur ∈ carrier → above ∈ carrier := by
    intro cur above path isCur
    induction path with
    | single first => exact closed _ isCur _ first
    | tail _ last ih => exact closed _ ih _ last
  induction fuel generalizing cur with
  | zero => exact short.elim
  | succ fuel ih =>
    rw [make_path]
    cases isParent : up cur with
    | none => exact bases cur
    | some parent =>
      have isMember := closed cur member parent isParent
      have shortParent := short parent isParent
      refine List.nodup_append.mpr ⟨ih isMember shortParent, List.nodup_singleton _, ?_⟩
      rintro step isUpper _ isOwn rfl
      rcases mem_make_path isUpper with ⟨top, onBase⟩ | ⟨ancestor, path, isStep⟩
      · exact others top parent (List.mem_singleton.mp isOwn ▸ onBase)
      · have same := apart ancestor (above path isMember) parent isMember (isStep.symm.trans (List.mem_singleton.mp isOwn))
        exact no_cycle_of_short shortParent (same ▸ path)

end Climbing

/-! ## Linux processes -/

/-- What the model asks of a `CLinuxProcess`. -/
structure CLinuxProcess where
  processId : UInt64
  parentUid : UInt64
  createTimeStamp : UInt64
  system : UInt64
  groupKey : String
deriving DecidableEq, Repr

def ValidateParent (process parent : CLinuxProcess) : Bool :=
  if parent.processId = process.processId then false else parent.createTimeStamp ≤ process.createTimeStamp

/-- The objects there are, each under its object uid. -/
abbrev Objects := UInt64 → CLinuxProcess

/-- A Linux process as the model sees it: none of them is reflected. -/
def seen (objects : Objects) (uid : UInt64) : Process :=
  ⟨uid, (objects uid).parentUid, (objects uid).system, (objects uid).groupKey, false⟩

variable (switches : Switches) (objects : Objects) (pointers : OrdMap UInt64 UInt64)

def process_list : ProcessList := pointers.mapValues (fun _ uid => seen objects uid)

def validate (process parent : Process) : Bool := ValidateParent (objects process.objectUid) (objects parent.objectUid)

/-- The call for a process comes to its end. -/
def Ends (process : Process) : Prop :=
  switches.tree = true → ∃ fuel, Short (parent_process switches (validate objects) (process_list objects pointers)) fuel process

/-- What is expected of the paths of a list. -/
def PathsCorrect : Prop := ∀ process ∈ processes (process_list objects pointers),
  Ends switches objects pointers process ∧ (MakePath switches (validate objects) (process_list objects pointers) process).Nodup ∧
    ∀ path, TestPath switches (validate objects) (process_list objects pointers) path process = true ↔
      path = MakePath switches (validate objects) (process_list objects pointers) process

/-- The process of the list that another names as its parent, of its own system and, where they matter, account, is another one and was
created at the very same time. -/
def Twin (process parent : Process) : Prop :=
  (process_list objects pointers).get process.parentUid = some parent ∧ parent.system = process.system ∧
    (switches.multiUser = true → parent.groupKey = process.groupKey) ∧
    (objects parent.objectUid).processId ≠ (objects process.objectUid).processId ∧
    (objects parent.objectUid).createTimeStamp = (objects process.objectUid).createTimeStamp

/-- No process comes back to itself over such parents. -/
def Untwined : Prop := ∀ process ∈ processes (process_list objects pointers), ¬ TransGen (Twin switches objects pointers) process process

variable {switches objects pointers}

variable {process : Process}

theorem process_of_list (member : process ∈ processes (process_list objects pointers)) :
    process = seen objects process.objectUid := by
  obtain ⟨pair, isPair, rfl⟩ := List.mem_map.mp member
  have found := OrdMap.mem_entries.mp isPair
  rw [process_list, OrdMap.get_mapValues, Option.map_eq_some_iff] at found
  obtain ⟨uid, -, isSeen⟩ := found
  rw [← isSeen]
  rfl

theorem parent_process_iff {parent : Process} :
    parent_process switches (validate objects) (process_list objects pointers) process = some parent ↔
      (process_list objects pointers).get process.parentUid = some parent ∧ parent.system = process.system ∧
        (switches.multiUser = true → parent.groupKey = process.groupKey) ∧
        (objects parent.objectUid).processId ≠ (objects process.objectUid).processId ∧
        (objects parent.objectUid).createTimeStamp ≤ (objects process.objectUid).createTimeStamp := by
  rw [parent_process, Option.filter_eq_some_iff]
  simp only [same_system, same_user, validate, ValidateParent, Bool.and_eq_true, Bool.or_eq_true, Bool.not_eq_true', beq_iff_eq]
  constructor
  · rintro ⟨found, ⟨sameSystem, accepted⟩, users⟩
    split_ifs at accepted with own
    refine ⟨found, sameSystem.symm, fun grouped => ?_, own, of_decide_eq_true accepted⟩
    rcases users with alone | sameUser
    · rw [grouped] at alone
      cases alone
    · exact sameUser.symm
  · rintro ⟨found, sameSystem, sameUser, other, older⟩
    rw [if_neg other]
    refine ⟨found, ⟨sameSystem.symm, decide_eq_true older⟩, ?_⟩
    cases grouped : switches.multiUser with
    | true => exact .inr (sameUser grouped).symm
    | false => exact .inl rfl

theorem created_above {above : Process}
    (path : TransGen (fun cur parent => parent_process switches (validate objects) (process_list objects pointers) cur = some parent) process above)
    : (objects above.objectUid).createTimeStamp ≤ (objects process.objectUid).createTimeStamp := by
  induction path with
  | single first => exact (parent_process_iff.mp first).2.2.2.2
  | tail _ last ih => exact (parent_process_iff.mp last).2.2.2.2.trans ih

theorem cycle_twins {above : Process}
    (there : TransGen (fun cur parent => parent_process switches (validate objects) (process_list objects pointers) cur = some parent) process above)
    (back : (objects process.objectUid).createTimeStamp ≤ (objects above.objectUid).createTimeStamp) :
    TransGen (Twin switches objects pointers) process above := by
  have twin : ∀ {cur parent : Process}, parent_process switches (validate objects) (process_list objects pointers) cur = some parent →
      (objects cur.objectUid).createTimeStamp ≤ (objects parent.objectUid).createTimeStamp → Twin switches objects pointers cur parent := by
    intro cur parent isParent older
    obtain ⟨found, sameSystem, sameUser, other, younger⟩ := parent_process_iff.mp isParent
    exact ⟨found, sameSystem, sameUser, other, le_antisymm younger older⟩
  induction there with
  | single first => exact .single (twin first back)
  | tail before last ih =>
    have lastYounger := (parent_process_iff.mp last).2.2.2.2
    exact (ih (back.trans lastYounger)).tail (twin last ((created_above before).trans back))

theorem acyclic_iff_untwined :
    Acyclic (parent_process switches (validate objects) (process_list objects pointers)) (processes (process_list objects pointers)) ↔
      Untwined switches objects pointers := by
  constructor
  · intro acyclic process member twins
    have accepted : ∀ cur parent, Twin switches objects pointers cur parent →
        parent_process switches (validate objects) (process_list objects pointers) cur = some parent := by
      rintro cur parent ⟨found, sameSystem, sameUser, other, same⟩
      exact parent_process_iff.mpr ⟨found, sameSystem, sameUser, other, same.le⟩
    exact acyclic process member (TransGen.mono accepted process process twins)
  · exact fun untwined process member cycle => untwined process member (cycle_twins cycle le_rfl)

theorem parent_process_closed : ∀ cur ∈ processes (process_list objects pointers), ∀ parent,
    parent_process switches (validate objects) (process_list objects pointers) cur = some parent → parent ∈ processes (process_list objects pointers) :=
  fun _ _ _ isParent => (parent_process_spec isParent).1

theorem process_path_nodup (member : process ∈ processes (process_list objects pointers))
    (short : switches.tree = true → Short (parent_process switches (validate objects) (process_list objects pointers)) (process_list objects pointers).entries.length process)
    : (MakePath switches (validate objects) (process_list objects pointers) process).Nodup := by
  have bases : ∀ cur, (branch_path switches cur).Nodup := by
    intro cur
    rw [branch_path]
    cases switches.multiUser with
    | true => exact List.nodup_singleton _
    | false => exact List.nodup_nil
  have isUser : ∀ top step, step ∈ branch_path switches top → ∃ scope key, step = .user scope key := by
    intro top step onBase
    rw [branch_path] at onBase
    cases grouped : switches.multiUser with
    | true => exact ⟨_, _, List.mem_singleton.mp (by rwa [grouped] at onBase)⟩
    | false => simp [grouped] at onBase
  have apart : ∀ one ∈ processes (process_list objects pointers), ∀ other ∈ processes (process_list objects pointers),
      Id.process one.objectUid = Id.process other.objectUid → one = other := by
    intro one isOne other isOther same
    rw [process_of_list isOne, process_of_list isOther, Id.process.inj same]
  have others : ∀ (top cur : Process), Id.process cur.objectUid ∉ branch_path switches top := by
    intro top cur onBase
    obtain ⟨scope, key, impossible⟩ := isUser top _ onBase
    cases impossible
  have lower : (bif switches.tree then MakeProcPath switches (validate objects) (process_list objects pointers) process
      else branch_path switches process).Nodup := by
    cases tree : switches.tree with
    | true => exact make_path_nodup parent_process_closed apart bases others member (short tree)
    | false => exact bases process
  rw [MakePath, head_path]
  cases switches.multiMachine with
  | false => exact lower
  | true =>
    refine List.nodup_cons.mpr ⟨?_, lower⟩
    intro isMachine
    cases tree : switches.tree with
    | false =>
      rw [tree] at isMachine
      obtain ⟨scope, key, impossible⟩ := isUser _ _ isMachine
      cases impossible
    | true =>
      rw [tree] at isMachine
      rcases mem_make_path isMachine with ⟨top, onBase⟩ | ⟨above, -, impossible⟩
      · obtain ⟨scope, key, impossible⟩ := isUser _ _ onBase
        cases impossible
      · cases impossible

/-- The paths are as expected in a flat list, and in a tree exactly when no processes that were created at the same time name each other
as their parents, directly or in a circle. -/
theorem paths_correct_iff (switches : Switches) (objects : Objects) (pointers : OrdMap UInt64 UInt64) :
    PathsCorrect switches objects pointers ↔ switches.tree = false ∨ Untwined switches objects pointers := by
  have entries : (process_list objects pointers).entries.length = (processes (process_list objects pointers)).length := (List.length_map _).symm
  constructor
  · intro correct
    cases tree : switches.tree with
    | false => exact .inl rfl
    | true =>
      refine .inr (acyclic_iff_untwined.mp fun process member cycle => ?_)
      obtain ⟨fuel, short⟩ := (correct process member).1 tree
      exact no_cycle_of_short short cycle
  · intro holds process member
    have short : switches.tree = true →
        Short (parent_process switches (validate objects) (process_list objects pointers)) (process_list objects pointers).entries.length process := by
      intro tree
      have untwined := holds.resolve_left (by simp [tree])
      rw [entries]
      exact short_of_acyclic (acyclic_iff_untwined.mpr untwined) parent_process_closed member
    exact ⟨fun tree => ⟨_, short tree⟩, process_path_nodup member short, test_path_short short⟩

/-- The number that stands for a pid and a time in milliseconds. -/
def SProcessUID (pid msTime : UInt64) : UInt64 := (pid <<< 42 &&& 0xFFFFFC0000000000) ^^^ (msTime &&& 0x3FFFFFFFFFF)

/-- Two processes of one moment that name each other as their parents. -/
def twins : Objects := fun uid => if uid = 1 then ⟨100, SProcessUID 101 5000, 5000, 7, "1000"⟩ else ⟨101, SProcessUID 100 5000, 5000, 7, "1000"⟩

def twinList : OrdMap UInt64 UInt64 := (OrdMap.empty.insert (SProcessUID 100 5000) 1).insert (SProcessUID 101 5000) 2

/-- The path of either is never finished. -/
theorem paths_endless : ¬ PathsCorrect ⟨true, false, false⟩ twins twinList := by
  intro correct
  have listed : seen twins 1 ∈ processes (process_list twins twinList) := by decide
  obtain ⟨fuel, short⟩ := (correct _ listed).1 rfl
  have first : parent_process ⟨true, false, false⟩ (validate twins) (process_list twins twinList) (seen twins 1) = some (seen twins 2) := by decide
  have second : parent_process ⟨true, false, false⟩ (validate twins) (process_list twins twinList) (seen twins 2) = some (seen twins 1) := by decide
  exact no_cycle_of_short short (.tail (b := seen twins 2) (.single first) second)

end TaskExplorer.ProcessPaths
