import TaskExplorer.Ranks
import TaskExplorer.Transition

/-!
# Windows pids of Wine processes

A Wine process has two halves, and nothing tells which Windows process a Linux process is.
The list that Wine gives of a directory is matched with the listed processes of that
directory: those of one image are paired by their rank when there are as many on both sides.
Listed processes may have exited, and a process that was first seen too early is not
known to be a Wine process.
-/

namespace TaskExplorer.WineIds
open OrderedMap Ranks Transition

/-! ## Both lists -/

structure SWineProcess where
  Pid : Nat
  ParentPid : Nat
  ImagePath : String
deriving DecidableEq, Repr

/-- A pid of 0 is none. -/
structure SWineInfo where
  Valid : Bool := false
  ImagePath : String := ""
  Prefix : String := ""
  WinPid : Nat := 0
  WinParentPid : Nat := 0
deriving DecidableEq, Repr

structure CLinuxProcess where
  processUId : Nat
  wine : SWineInfo := {}
  /-- The Windows process that the token is of. -/
  token : Option Nat := none
deriving DecidableEq, Repr

structure CLinuxAPI where
  processByPID : OrdMap Nat CLinuxProcess := .empty
  lastWineQuery : Nat := 0

/-- What a query finds: the list of a directory is empty when there is no helper for it. -/
structure Query where
  now : Nat
  available : Bool
  windows : String → List SWineProcess
  getToken : Nat → Bool

def c_WineQueryMaxAge : Nat := 60000

abbrev Member := Nat × CLinuxProcess

/-- Neither something else nor a part of Wine without a Windows image. -/
def under_wine (process : CLinuxProcess) : Bool := process.wine.Valid && process.wine.Prefix ≠ "" && process.wine.ImagePath ≠ ""

def ByPrefix (api : CLinuxAPI) : OrdMap String (List Member) :=
  grouped (fun member => member.2.wine.Prefix) (api.processByPID.entries.filter fun member => under_wine member.2)

section
variable (lower : String → String)

def LinuxByImage (members : List Member) : OrdMap String (List Member) := grouped (fun member => lower member.2.wine.ImagePath) members

def WinByImage (windows : List SWineProcess) : OrdMap String (List SWineProcess) := grouped (fun win => lower win.ImagePath) windows

/-- The processes of one image, each with the Windows process of its rank; none if the numbers differ. -/
def pair_image (winByImage : OrdMap String (List SWineProcess)) (group : String × List Member) : List (Member × SWineProcess) :=
  let Peers := (winByImage.get group.1).getD []
  if Peers.length ≠ group.2.length then [] else (sort_by Prod.fst group.2).zip (sort_by SWineProcess.Pid Peers)

def pairs_in (query : Query) (group : String × List Member) : List (Member × SWineProcess) :=
  let Windows := query.windows group.1
  if Windows = [] then [] else (LinuxByImage lower group.2).entries.flatMap (pair_image (WinByImage lower Windows))

/-- Who gets which pid, in the order in which the loops hand them out. -/
def pairs (query : Query) (api : CLinuxAPI) : List (Member × SWineProcess) := (ByPrefix api).entries.flatMap (pairs_in lower query)

/-- `SetWineIds`, and the token of a process that has none yet. -/
def set_ids (query : Query) (list : OrdMap Nat CLinuxProcess) (pair : Member × SWineProcess) : OrdMap Nat CLinuxProcess :=
  match list.get pair.1.1 with
  | some process =>
    list.insert pair.1.1
      { process with
        wine := { process.wine with WinPid := pair.2.Pid, WinParentPid := pair.2.ParentPid }
        token := if process.token = none ∧ query.getToken pair.2.Pid = true then some pair.2.Pid else process.token }
  | none => list

/-- Not more than once a minute. -/
def Asks (query : Query) (api : CLinuxAPI) : Prop :=
  query.available = true ∧ ¬ (api.lastWineQuery ≠ 0 ∧ (query.now + 2 ^ 64 - api.lastWineQuery) % 2 ^ 64 < c_WineQueryMaxAge)

instance (query : Query) (api : CLinuxAPI) : Decidable (Asks query api) := inferInstanceAs (Decidable (_ ∧ _))

def UpdateWineIds (query : Query) (api : CLinuxAPI) : CLinuxAPI :=
  if Asks query api then
    if (ByPrefix api).entries = [] then api else ⟨(pairs lower query api).foldl (set_ids query) api.processByPID, query.now⟩
  else api

end

/-! ## What happens in a directory -/

/-- A process under Wine with both its halves. -/
structure Process where
  uid : Nat
  pid : Nat
  winPid : Nat
  winParentPid : Nat
  Prefix : String
  ImagePath : String
  windowsImage : String
deriving DecidableEq, Repr

/-- Its Windows half. -/
def Process.half (process : Process) : SWineProcess := ⟨process.winPid, process.winParentPid, process.windowsImage⟩

structure World where
  api : CLinuxAPI := {}
  ever : List Process := []
  running : List Process := []

inductive Event where
  | start (process : Process)
  | exit (process : Process)
  | refresh (list : OrdMap Nat CLinuxProcess)
  | query (query : Query)

def step (lower : String → String) (world : World) : Event → Option World
  | .start process => some { world with ever := process :: world.ever, running := process :: world.running }
  | .exit process => some { world with running := world.running.filter (· ≠ process) }
  | .refresh list => some { world with api := { world.api with processByPID := list } }
  | .query query => some { world with api := UpdateWineIds lower query world.api }

/-- A new object of the list: what it is found to be under Wine, or nothing when it is seen too early. -/
structure Seen (process : Process) (object : CLinuxProcess) : Prop where
  uid : object.processUId = process.uid
  fresh : object.wine.WinPid = 0
  found : under_wine object = true → object.wine.Prefix = process.Prefix ∧ object.wine.ImagePath = process.ImagePath

/-- Every process that runs is listed. -/
def Complete (list : OrdMap Nat CLinuxProcess) (running : List Process) : Prop :=
  ∀ process ∈ running, ∃ object, list.get process.pid = some object ∧ object.processUId = process.uid

/-- Wine pids rise in a directory and Linux pids are free; a refresh lists what runs, and keeps of the rest what it likes; the list of a query is
complete, and nothing has started or exited since the processes were listed. -/
def Possible (lower : String → String) (world : World) : Event → Prop
  | .start process => process.winPid ≠ 0 ∧ lower process.ImagePath = lower process.windowsImage ∧
      (∀ other ∈ world.ever, other.uid ≠ process.uid) ∧ (∀ other ∈ world.ever, other.Prefix = process.Prefix → other.winPid < process.winPid) ∧
      ∀ other ∈ world.running, other.pid ≠ process.pid
  | .exit process => process ∈ world.running
  | .refresh list => Complete list world.running ∧
      ∀ entry ∈ list.entries, world.api.processByPID.get entry.1 = some entry.2 ∨ ∃ process ∈ world.running, process.pid = entry.1 ∧ Seen process entry.2
  | .query query => Complete world.api.processByPID world.running ∧
      ∀ Prefix, query.windows Prefix = [] ∨ (query.windows Prefix).Perm ((world.running.filter fun process => process.Prefix = Prefix).map Process.half)

/-- The listed processes of a directory that have an image. -/
def ours (lower : String → String) (api : CLinuxAPI) (Prefix image : String) : List Member :=
  ((api.processByPID.entries.filter fun member => under_wine member.2).filter fun member => member.2.wine.Prefix = Prefix).filter
    fun member => lower member.2.wine.ImagePath = image

/-- And those that Wine lists. -/
def peers (lower : String → String) (query : Query) (Prefix image : String) : List SWineProcess :=
  (query.windows Prefix).filter fun win => lower win.ImagePath = image

/-- The process that runs as a member of the list. -/
def running_as (world : World) (member : Member) : Option Process := world.running.find? fun process => process.uid = member.2.processUId

/-- Where the numbers agree all members of the list run, and their pids are in the order of their Wine pids. -/
def Matched (lower : String → String) (world : World) : Event → Prop
  | .query query => Asks query world.api → ∀ Prefix image, query.windows Prefix ≠ [] →
      (peers lower query Prefix image).length = (ours lower world.api Prefix image).length →
        (∀ member ∈ ours lower world.api Prefix image, (running_as world member).isSome = true) ∧
          ∀ one ∈ ours lower world.api Prefix image, ∀ two ∈ ours lower world.api Prefix image, one.1 < two.1 →
            ((running_as world one).map Process.winPid).getD 0 < ((running_as world two).map Process.winPid).getD 0
  | _ => True

def Plain (lower : String → String) (world : World) (event : Event) : Prop := Possible lower world event ∧ Matched lower world event

/-- A process that runs has its own Windows pid or none, and nobody has that of another process. -/
def Right (world : World) : Prop :=
  (∀ process ∈ world.running, ∀ object, world.api.processByPID.get process.pid = some object → object.processUId = process.uid →
    object.wine.WinPid = 0 ∨ object.wine.WinPid = process.winPid) ∧
  ∀ pid object, world.api.processByPID.get pid = some object →
    ∀ process ∈ world.running, process.Prefix = object.wine.Prefix → object.wine.WinPid = process.winPid → object.processUId = process.uid

/-! ## What a query hands out -/

section
variable {lower : String → String} {query : Query} {api : CLinuxAPI}

theorem mem_pairs {pair : Member × SWineProcess} (member : pair ∈ pairs lower query api) :
    ∃ Prefix image, query.windows Prefix ≠ [] ∧ (peers lower query Prefix image).length = (ours lower api Prefix image).length ∧
      pair ∈ (sort_by Prod.fst (ours lower api Prefix image)).zip (sort_by SWineProcess.Pid (peers lower query Prefix image)) := by
  obtain ⟨⟨Prefix, members⟩, isGroup, inPrefix⟩ := List.mem_flatMap.mp member
  have isMembers := grouped_mem (OrdMap.mem_entries.mp isGroup)
  rw [pairs_in] at inPrefix
  split_ifs at inPrefix with none
  · cases inPrefix
  · obtain ⟨⟨image, group⟩, isImage, inImage⟩ := List.mem_flatMap.mp inPrefix
    have isOurs : group = ours lower api Prefix image := by
      rw [ours, ← isMembers]
      exact grouped_mem (OrdMap.mem_entries.mp isImage)
    have isPeers : ((WinByImage lower (query.windows Prefix)).get image).getD [] = peers lower query Prefix image := get_grouped _ _ _
    rw [pair_image, isPeers, isOurs] at inImage
    split_ifs at inImage with differ
    · cases inImage
    · exact ⟨Prefix, image, none, not_not.mp differ, inImage⟩

/-- An object differs at most in its Windows pids and its token. -/
structure SameBut (object other : CLinuxProcess) : Prop where
  uid : object.processUId = other.processUId
  Prefix : object.wine.Prefix = other.wine.Prefix
  shown : under_wine object = under_wine other
  image : object.wine.ImagePath = other.wine.ImagePath

theorem set_ids_get {list : OrdMap Nat CLinuxProcess} {pair : Member × SWineProcess} {pid : Nat} {object : CLinuxProcess}
    (found : (set_ids query list pair).get pid = some object) :
    ∃ before, list.get pid = some before ∧ SameBut object before ∧
      (object.wine.WinPid = before.wine.WinPid ∨ (pair.1.1 = pid ∧ object.wine.WinPid = pair.2.Pid)) := by
  rw [set_ids] at found
  cases there : list.get pair.1.1 with
  | none =>
    rw [there] at found
    exact ⟨object, found, ⟨rfl, rfl, rfl, rfl⟩, .inl rfl⟩
  | some before =>
    rw [there] at found
    dsimp only at found
    rw [OrdMap.get_insert] at found
    by_cases here : pair.1.1 = pid
    · rw [if_pos here] at found
      obtain rfl := Option.some.inj found
      exact ⟨before, by rw [← here, there], ⟨rfl, rfl, rfl, rfl⟩, .inr ⟨here, rfl⟩⟩
    · rw [if_neg here] at found
      exact ⟨object, found, ⟨rfl, rfl, rfl, rfl⟩, .inl rfl⟩

theorem set_all_get (list : OrdMap Nat CLinuxProcess) (some : List (Member × SWineProcess)) {pid : Nat} {object : CLinuxProcess}
    (found : (some.foldl (set_ids query) list).get pid = Option.some object) :
    ∃ before, list.get pid = Option.some before ∧ SameBut object before ∧
      (object.wine.WinPid = before.wine.WinPid ∨ ∃ pair ∈ some, pair.1.1 = pid ∧ object.wine.WinPid = pair.2.Pid) := by
  induction some using List.reverseRecOn generalizing object with
  | nil => exact ⟨object, found, ⟨rfl, rfl, rfl, rfl⟩, .inl rfl⟩
  | append_singleton earlier last ih =>
    rw [List.foldl_append] at found
    obtain ⟨middle, isMiddle, same, changed⟩ := set_ids_get found
    obtain ⟨before, isBefore, sameBefore, earlierChanged⟩ := ih isMiddle
    refine ⟨before, isBefore, ⟨same.uid.trans sameBefore.uid, same.Prefix.trans sameBefore.Prefix, same.shown.trans sameBefore.shown,
      same.image.trans sameBefore.image⟩, ?_⟩
    rcases changed with kept | ⟨isPid, isWin⟩
    · rcases earlierChanged with alsoKept | ⟨pair, member, isPid, isWin⟩
      · exact .inl (kept.trans alsoKept)
      · exact .inr ⟨pair, List.mem_append_left _ member, isPid, kept.trans isWin⟩
    · exact .inr ⟨last, by simp, isPid, isWin⟩

end

/-! ## What holds -/

/-- Wine pids are those of one process in a directory each, a listed process is what it was found to be, and has its own Windows pid if any. -/
structure Sound (lower : String → String) (world : World) : Prop where
  uids : ∀ process ∈ world.ever, ∀ other ∈ world.ever, process.uid = other.uid → process = other
  winPids : ∀ process ∈ world.ever, ∀ other ∈ world.ever, process.Prefix = other.Prefix → process.winPid = other.winPid → process = other
  positive : ∀ process ∈ world.ever, process.winPid ≠ 0
  images : ∀ process ∈ world.ever, lower process.ImagePath = lower process.windowsImage
  started : ∀ process ∈ world.running, process ∈ world.ever
  once : world.running.Nodup
  listed : ∀ pid object, world.api.processByPID.get pid = some object → under_wine object = true →
    ∃ process ∈ world.ever, process.uid = object.processUId ∧ process.Prefix = object.wine.Prefix ∧ process.ImagePath = object.wine.ImagePath
  own : ∀ pid object, world.api.processByPID.get pid = some object → object.wine.WinPid ≠ 0 →
    ∃ process ∈ world.ever, process.uid = object.processUId ∧ process.Prefix = object.wine.Prefix ∧ process.winPid = object.wine.WinPid

section
variable {lower : String → String} {world : World}

theorem sound_start : Sound lower {} where
  uids process impossible := by cases impossible
  winPids process impossible := by cases impossible
  positive process impossible := by cases impossible
  images process impossible := by cases impossible
  started process impossible := by cases impossible
  once := List.nodup_nil
  listed pid object impossible := by cases impossible
  own pid object impossible := by cases impossible

theorem Sound.right (sound : Sound lower world) : Right world := by
  constructor
  · intro process runs object found same
    by_cases none : object.wine.WinPid = 0
    · exact .inl none
    · obtain ⟨owner, ever, isUid, -, isWin⟩ := sound.own process.pid object found none
      obtain rfl := sound.uids owner ever process (sound.started process runs) (isUid.trans same)
      exact .inr isWin.symm
  · intro pid object found process runs samePrefix isWin
    have ever := sound.started process runs
    obtain ⟨owner, alsoEver, isUid, isPrefix, isOwn⟩ := sound.own pid object found (by rw [isWin]; exact sound.positive process ever)
    rw [← isUid, sound.winPids owner alsoEver process ever (isPrefix.trans samePrefix.symm) (isOwn.trans isWin)]

theorem Sound.start (sound : Sound lower world) {process : Process} (possible : Possible lower world (.start process)) :
    Sound lower { world with ever := process :: world.ever, running := process :: world.running } := by
  obtain ⟨positive, image, newUid, rising, free⟩ := possible
  refine ⟨?_, ?_, ?_, ?_, ?_, ?_, ?_, ?_⟩
  · intro one first two second same
    rcases List.mem_cons.mp first with rfl | isOld <;> rcases List.mem_cons.mp second with rfl | alsoOld
    · rfl
    · exact absurd same.symm (newUid two alsoOld)
    · exact absurd same (newUid one isOld)
    · exact sound.uids one isOld two alsoOld same
  · intro one first two second samePrefix same
    rcases List.mem_cons.mp first with rfl | isOld <;> rcases List.mem_cons.mp second with rfl | alsoOld
    · rfl
    · exact absurd same.symm (Nat.ne_of_lt (rising two alsoOld samePrefix.symm))
    · exact absurd same (Nat.ne_of_lt (rising one isOld samePrefix))
    · exact sound.winPids one isOld two alsoOld samePrefix same
  · exact List.forall_mem_cons.mpr ⟨positive, sound.positive⟩
  · exact List.forall_mem_cons.mpr ⟨image, sound.images⟩
  · exact List.forall_mem_cons.mpr ⟨List.mem_cons_self, fun other runs => List.mem_cons_of_mem _ (sound.started other runs)⟩
  · exact List.nodup_cons.mpr ⟨fun runs => newUid process (sound.started process runs) rfl, sound.once⟩
  · intro pid object found shown
    obtain ⟨other, ever, facts⟩ := sound.listed pid object found shown
    exact ⟨other, List.mem_cons_of_mem _ ever, facts⟩
  · intro pid object found some
    obtain ⟨other, ever, facts⟩ := sound.own pid object found some
    exact ⟨other, List.mem_cons_of_mem _ ever, facts⟩

theorem Sound.exit (sound : Sound lower world) (process : Process) : Sound lower { world with running := world.running.filter (· ≠ process) } :=
  { sound with
    started := fun other runs => sound.started other (List.mem_of_mem_filter runs)
    once := sound.once.filter _ }

theorem Sound.refresh (sound : Sound lower world) {list : OrdMap Nat CLinuxProcess} (possible : Possible lower world (.refresh list)) :
    Sound lower { world with api := { world.api with processByPID := list } } := by
  obtain ⟨-, entries⟩ := possible
  refine { sound with listed := fun pid object found shown => ?_, own := fun pid object found some => ?_ }
  · rcases entries (pid, object) (OrdMap.mem_entries.mpr found) with known | ⟨process, runs, -, seen⟩
    · exact sound.listed pid object known shown
    · obtain ⟨samePrefix, sameImage⟩ := seen.found shown
      exact ⟨process, sound.started process runs, seen.uid.symm, samePrefix.symm, sameImage.symm⟩
  · rcases entries (pid, object) (OrdMap.mem_entries.mpr found) with known | ⟨process, runs, -, seen⟩
    · exact sound.own pid object known some
    · exact absurd seen.fresh some

theorem running_as_spec (sound : Sound lower world) {member : Member} (listed : world.api.processByPID.get member.1 = some member.2)
    (shown : under_wine member.2 = true) {process : Process} (isRunning : running_as world member = some process) :
    process ∈ world.running ∧ process.uid = member.2.processUId ∧ process.Prefix = member.2.wine.Prefix ∧
      process.ImagePath = member.2.wine.ImagePath := by
  have runs := List.mem_of_find?_eq_some isRunning
  have isUid : process.uid = member.2.processUId := by simpa using List.find?_some isRunning
  obtain ⟨other, ever, sameUid, samePrefix, sameImage⟩ := sound.listed member.1 member.2 listed shown
  obtain rfl := sound.uids process (sound.started process runs) other ever (isUid.trans sameUid.symm)
  exact ⟨runs, isUid, samePrefix, sameImage⟩

theorem mem_ours {api : CLinuxAPI} {Prefix image : String} {member : Member} :
    member ∈ ours lower api Prefix image ↔ api.processByPID.get member.1 = some member.2 ∧ under_wine member.2 = true ∧
      member.2.wine.Prefix = Prefix ∧ lower member.2.wine.ImagePath = image := by
  rw [ours, List.mem_filter, List.mem_filter, List.mem_filter, decide_eq_true_iff, decide_eq_true_iff, and_assoc, and_assoc]
  have among : member ∈ api.processByPID.entries ↔ api.processByPID.get member.1 = some member.2 := OrdMap.mem_entries
  rw [among]

theorem pair_own (sound : Sound lower world) {query : Query} (possible : Possible lower world (.query query)) (matched : Matched lower world (.query query))
    (asks : Asks query world.api) {pair : Member × SWineProcess} (member : pair ∈ pairs lower query world.api) :
    world.api.processByPID.get pair.1.1 = some pair.1.2 ∧
      ∃ process ∈ world.running, process.uid = pair.1.2.processUId ∧ process.Prefix = pair.1.2.wine.Prefix ∧ process.winPid = pair.2.Pid := by
  obtain ⟨Prefix, image, some, same, among⟩ := mem_pairs member
  obtain ⟨-, lists⟩ := possible
  obtain ⟨run, order⟩ := matched asks Prefix image some same
  have complete := (lists Prefix).resolve_left some
  let own : Member → SWineProcess := fun member => ((running_as world member).map Process.half).getD ⟨0, 0, ""⟩
  have own_pid (member : Member) : (own member).Pid = ((running_as world member).map Process.winPid).getD 0 := by
    cases isRunning : running_as world member <;> simp [own, isRunning, Process.half]
  have members : ∀ member ∈ ours lower world.api Prefix image, own member ∈ peers lower query Prefix image := by
    intro member isOurs
    obtain ⟨listed, shown, isPrefix, isImage⟩ := mem_ours.mp isOurs
    obtain ⟨process, isRunning⟩ := Option.isSome_iff_exists.mp (run member isOurs)
    obtain ⟨runs, -, samePrefix, sameImage⟩ := running_as_spec sound listed shown isRunning
    have isHalf : own member = process.half := by simp [own, isRunning]
    rw [isHalf, peers, List.mem_filter, complete.mem_iff]
    refine ⟨List.mem_map_of_mem (List.mem_filter.mpr ⟨runs, decide_eq_true (samePrefix.trans isPrefix)⟩), decide_eq_true ?_⟩
    change lower process.windowsImage = image
    rw [← sound.images process (sound.started process runs), sameImage, isImage]
  have distinct : ((ours lower world.api Prefix image).map Prod.fst).Nodup :=
    (OrdMap.keys_nodup world.api.processByPID).sublist (((List.filter_sublist.trans List.filter_sublist).trans List.filter_sublist).map Prod.fst)
  have apart : ((peers lower query Prefix image).map SWineProcess.Pid).Nodup := by
    have whole : ((query.windows Prefix).map SWineProcess.Pid).Nodup := by
      rw [(complete.map SWineProcess.Pid).nodup_iff, List.map_map]
      refine List.Nodup.map_on (fun one first two second equal => ?_) (sound.once.filter _)
      obtain ⟨runs, isPrefix⟩ := List.mem_filter.mp first
      obtain ⟨alsoRuns, alsoPrefix⟩ := List.mem_filter.mp second
      exact sound.winPids one (sound.started one runs) two (sound.started two alsoRuns)
        ((of_decide_eq_true isPrefix).trans (of_decide_eq_true alsoPrefix).symm) equal
    exact whole.sublist (List.filter_sublist.map _)
  obtain ⟨isOurs, isOwn⟩ := paired_own members distinct apart (fun one first two second less => by
    rw [own_pid, own_pid]
    exact order one first two second less) same.symm among
  obtain ⟨listed, shown, -, -⟩ := mem_ours.mp isOurs
  obtain ⟨process, isRunning⟩ := Option.isSome_iff_exists.mp (run pair.1 isOurs)
  obtain ⟨runs, isUid, samePrefix, -⟩ := running_as_spec sound listed shown isRunning
  refine ⟨listed, process, runs, isUid, samePrefix, ?_⟩
  rw [isOwn, own_pid, isRunning]
  rfl

theorem Sound.query (sound : Sound lower world) {query : Query} (plain : Plain lower world (.query query)) :
    Sound lower { world with api := UpdateWineIds lower query world.api } := by
  rw [UpdateWineIds]
  split_ifs with asks none
  · exact sound
  · refine { sound with listed := fun pid object found shown => ?_, own := fun pid object found some => ?_ }
    · obtain ⟨before, isBefore, same, -⟩ := set_all_get _ _ found
      rw [same.uid, same.Prefix, same.image]
      exact sound.listed pid before isBefore (same.shown ▸ shown)
    · obtain ⟨before, isBefore, same, kept | ⟨pair, member, isPid, isWin⟩⟩ := set_all_get _ _ found
      · rw [same.uid, same.Prefix, kept]
        exact sound.own pid before isBefore (kept ▸ some)
      · obtain ⟨listed, process, runs, isUid, isPrefix, isOwn⟩ := pair_own sound plain.1 plain.2 asks member
        rw [isPid, isBefore] at listed
        obtain rfl := Option.some.inj listed
        exact ⟨process, sound.started process runs, isUid.trans same.uid.symm, isPrefix.trans same.Prefix.symm, isOwn.trans isWin.symm⟩
  · exact sound

theorem Sound.step (sound : Sound lower world) {event : Event} {later : World} (plain : Plain lower world event)
    (moved : step lower world event = some later) : Sound lower later := by
  cases event with
  | start process =>
    obtain rfl := Option.some.inj moved
    exact sound.start plain.1
  | exit process =>
    obtain rfl := Option.some.inj moved
    exact sound.exit process
  | refresh list =>
    obtain rfl := Option.some.inj moved
    exact sound.refresh plain.1
  | query query =>
    obtain rfl := Option.some.inj moved
    exact sound.query plain

end

/-! ## Two processes of one image -/

def home : String := "/home/user/.wine"

def copy (uid pid winPid : Nat) : Process := ⟨uid, pid, winPid, 0, home, "c:\\editor.exe", "C:\\editor.exe"⟩

/-- The first process, and a second one with the pid that follows, or with a smaller one after the pids have wrapped. -/
def one : Process := copy 1 300 32
def next : Process := copy 2 301 36
def wrapped : Process := copy 2 20 36

def object (process : Process) : CLinuxProcess := ⟨process.uid, ⟨true, process.ImagePath, process.Prefix, 0, 0⟩, none⟩

def both (two : Process) : OrdMap Nat CLinuxProcess := (OrdMap.empty.insert one.pid (object one)).insert two.pid (object two)

def asking (two : Process) : Query := ⟨1000, true, fun Prefix => if Prefix = home then [one.half, two.half] else [], fun _ => false⟩

/-- Upper case matters in the name of the drive only. -/
def lower_drive (text : String) : String := if text = "C:\\editor.exe" then "c:\\editor.exe" else text

def world_one : World := ⟨{}, [one], [one]⟩
def started (two : Process) : World := ⟨{}, [two, one], [two, one]⟩
def refreshed (two : Process) : World := ⟨⟨both two, 0⟩, [two, one], [two, one]⟩
def queried (two : Process) : World := ⟨UpdateWineIds lower_drive (asking two) ⟨both two, 0⟩, [two, one], [two, one]⟩

theorem complete_both {two : Process} (apart : two.pid ≠ one.pid) : Complete (both two) [two, one] := by
  intro process runs
  rcases List.mem_cons.mp runs with rfl | runs
  · exact ⟨object process, (OrdMap.get_insert _ _ _ _).trans (if_pos rfl), rfl⟩
  · obtain rfl := List.mem_singleton.mp runs
    exact ⟨object one, by rw [both, OrdMap.get_insert, if_neg apart, OrdMap.get_insert, if_pos rfl], rfl⟩

theorem seen_object (process : Process) : Seen process (object process) := ⟨rfl, rfl, fun _ => ⟨rfl, rfl⟩⟩

theorem possible_both {uid pid winPid : Nat} (newUid : 1 ≠ uid) (free : 300 ≠ pid) (rises : 32 < winPid) :
    Possible lower_drive world_one (.start (copy uid pid winPid)) ∧ Possible lower_drive (started (copy uid pid winPid)) (.refresh (both (copy uid pid winPid))) ∧
      Possible lower_drive (refreshed (copy uid pid winPid)) (.query (asking (copy uid pid winPid))) := by
  have complete : Complete (both (copy uid pid winPid)) [copy uid pid winPid, one] := complete_both free.symm
  have image : lower_drive one.ImagePath = lower_drive one.windowsImage := by decide +kernel
  refine ⟨⟨Nat.ne_of_gt (Nat.lt_of_le_of_lt (Nat.zero_le _) rises), image, ?_, ?_, ?_⟩, ⟨complete, ?_⟩, ⟨complete, ?_⟩⟩
  · exact fun other member => List.mem_singleton.mp member ▸ newUid
  · exact fun other member _ => List.mem_singleton.mp member ▸ rises
  · exact fun other member => List.mem_singleton.mp member ▸ free
  · intro entry member
    have found := OrdMap.mem_entries.mp member
    rw [both, OrdMap.get_insert] at found
    split_ifs at found with isTwo
    · exact .inr ⟨copy uid pid winPid, by simp [started], isTwo, Option.some.inj found ▸ seen_object _⟩
    · rw [OrdMap.get_insert] at found
      split_ifs at found with isOne
      · exact .inr ⟨one, by simp [started], isOne, Option.some.inj found ▸ seen_object _⟩
      · cases found
  · intro Prefix
    by_cases here : Prefix = home
    · subst here
      refine .inr ?_
      have running : (refreshed (copy uid pid winPid)).running.filter (fun process => process.Prefix = home) = [copy uid pid winPid, one] :=
        List.filter_eq_self.mpr fun process member => by
          rcases List.mem_cons.mp member with rfl | member
          · rfl
          · rw [List.mem_singleton.mp member]
            rfl
      rw [running]
      exact List.Perm.swap _ _ _
    · exact .inl (if_neg here)

theorem possible_one : Possible lower_drive {} (.start one) :=
  ⟨by decide, by decide +kernel, fun _ impossible => (by cases impossible), fun _ impossible => (by cases impossible), fun _ impossible => (by cases impossible)⟩

theorem matched_next : Matched lower_drive (refreshed next) (.query (asking next)) := by
  intro _ Prefix image _ _
  have listed : ∀ member ∈ ours lower_drive (refreshed next).api Prefix image, member = (300, object one) ∨ member = (301, object next) := by
    intro member isOurs
    have found := (mem_ours.mp isOurs).1
    have among : member ∈ (both next).entries := OrdMap.mem_entries.mpr found
    have each : ∀ member ∈ (both next).entries, member = (300, object one) ∨ member = (301, object next) := by decide +kernel
    exact each member among
  have isOne : running_as (refreshed next) (300, object one) = some one := by decide +kernel
  have isNext : running_as (refreshed next) (301, object next) = some next := by decide +kernel
  constructor
  · intro member isOurs
    rcases listed member isOurs with rfl | rfl
    · rw [isOne]
      rfl
    · rw [isNext]
      rfl
  · intro first isFirst second isSecond less
    rcases listed first isFirst with rfl | rfl <;> rcases listed second isSecond with rfl | rfl
    · exact absurd less (Nat.lt_irrefl _)
    · rw [isOne, isNext]
      decide
    · exact absurd less (by decide)
    · exact absurd less (Nat.lt_irrefl _)

/-- In every run in which paired groups have only running members, and pids that rise with their Wine pids, no process has a wrong Windows pid. -/
theorem wine_ids_right (lower : String → String) {world : World} (run : Run (step lower) (Plain lower) {} world) : Right world :=
  (run.invariant (Sound lower) sound_start fun sound plain moved => sound.step plain moved).right

theorem wine_ids_right_next : Right (queried next) ∧ ((queried next).api.processByPID.get 301).map (fun object => object.wine.WinPid) = some 36 := by
  obtain ⟨starts, lists, asks⟩ := @possible_both 2 301 36 (by decide) (by decide) (by decide)
  refine ⟨wine_ids_right lower_drive ?_, by decide +kernel⟩
  have run_one : Run (step lower_drive) (Plain lower_drive) {} world_one := .next .start ⟨possible_one, trivial⟩ rfl
  have run_both : Run (step lower_drive) (Plain lower_drive) {} (started next) := .next run_one ⟨starts, trivial⟩ rfl
  have run_listed : Run (step lower_drive) (Plain lower_drive) {} (refreshed next) := .next run_both ⟨lists, trivial⟩ rfl
  exact .next run_listed ⟨asks, matched_next⟩ rfl

/-- After the pids have wrapped the second process has the Windows pid of the first one. -/
theorem pids_wrapped : Run (step lower_drive) (Possible lower_drive) {} (queried wrapped) ∧ ¬ Right (queried wrapped) := by
  obtain ⟨starts, lists, asks⟩ := @possible_both 2 20 36 (by decide) (by decide) (by decide)
  constructor
  · have run_one : Run (step lower_drive) (Possible lower_drive) {} world_one := .next .start possible_one rfl
    have run_both : Run (step lower_drive) (Possible lower_drive) {} (started wrapped) := .next run_one starts rfl
    have run_listed : Run (step lower_drive) (Possible lower_drive) {} (refreshed wrapped) := .next run_both lists rfl
    exact .next run_listed asks rfl
  · intro right
    have found : ((queried wrapped).api.processByPID.get 20).map (fun object => (object.processUId, object.wine.WinPid)) = some (2, 32) := by decide +kernel
    obtain ⟨object, listed, same⟩ := Option.map_eq_some_iff.mp found
    obtain ⟨isUid, isWin⟩ := Prod.mk.inj same
    rcases right.1 wrapped (by simp [queried]) object listed isUid with zero | own
    · rw [isWin] at zero
      cases zero
    · rw [isWin] at own
      cases own

end TaskExplorer.WineIds
