import TaskExplorer.ListEdits
import TaskExplorer.Transition

/-!
# The cluster

The directory of machines that a viewer keeps: the entries somebody configured
or discovery suggested (`m_Targets`), and the systems in view (`m_Nodes`). Every
section that holds `m_Mutex` is one step. A `Connect` is four of them with the
handshake between, and a `RemoveTarget` is two, so that any number of calls may
be under way at once.

The strings are Qt's, and so are the folding of their case and `arg`. What a
remote object answers is an input: it comes from a module that is loaded.
-/

namespace TaskExplorer.Cluster
open ListEdits Transition

abbrev QString := List Char

/-- What is used of Qt's strings. -/
structure Qt where
  /-- Equal for strings that compare equal with `Qt::CaseInsensitive`. -/
  foldCase : QString → QString
  /-- `QString::arg`. -/
  arg : QString → QString → QString

def Qt.Same (qt : Qt) (left right : QString) : Prop := qt.foldCase left = qt.foldCase right

instance (qt : Qt) (left right : QString) : Decidable (qt.Same left right) :=
  inferInstanceAs (Decidable (qt.foldCase left = qt.foldCase right))

/-- The lowest digit behind a percent sign. -/
def lowestMarker : QString → Option Char
  | '%' :: digit :: rest =>
    if digit.isDigit then
      match lowestMarker rest with
      | some other => some (if digit ≤ other then digit else other)
      | none => some digit
    else lowestMarker (digit :: rest)
  | _ :: rest => lowestMarker rest
  | [] => none

def fillMarker (marker : Char) (value : QString) : QString → QString
  | '%' :: digit :: rest =>
    if digit = marker then value ++ fillMarker marker value rest else '%' :: fillMarker marker value (digit :: rest)
  | char :: rest => char :: fillMarker marker value rest
  | [] => []

/-- Qt on ASCII text, with place markers of one digit. -/
def asciiQt : Qt where
  foldCase := List.map Char.toLower
  arg text value :=
    match lowestMarker text with
    | some marker => fillMarker marker value text
    | none => text

/-- A connected remote machine: the address that was dialled, the id it
    presented, and the id it goes on requiring. -/
structure Remote where
  pointer : Nat
  address : QString
  machineId : QString
  expected : QString
deriving DecidableEq, Repr

inductive CSystem where
  | theSystem
  | remote (object : Remote)
deriving DecidableEq, Repr

inductive EState where
  | saved
  | connecting
  | connected
  | failed
  | lost
  | discovered
deriving DecidableEq, Repr

structure STarget where
  name : QString
  address : QString
  machineId : QString := []
  state : EState := .saved
  lastError : Nat := 0
  system : Option Remote := none
  lastRetry : Nat := 0
  localDaemon : Bool := false
  /-- Tells entries apart; not in the source. -/
  entry : Nat
  /-- The `Connect` that last made it `connecting`; not in the source. -/
  caller : Option Nat := none
deriving DecidableEq, Repr

inductive EIdentityPolicy where
  | requireSaved
  | acceptNew
deriving DecidableEq, Repr

/-- How far a `Connect` has come. -/
inductive Stage where
  | added
  | marked
  | expecting (expected : QString)
deriving DecidableEq, Repr

structure Connecting where
  call : Nat
  name : QString
  address : QString
  identity : EIdentityPolicy
  takeView : Bool
  stage : Stage := .added
deriving DecidableEq, Repr

structure Removing where
  call : Nat
  name : QString
deriving DecidableEq, Repr

inductive Status where
  | ok
  | noCertificate
  | noRemoteModule
  | refused (code : Nat)
deriving DecidableEq, Repr

/-- What a `Connect` returned, and the status it set if it did. -/
structure Answer where
  call : Nat
  system : Option Remote
  status : Option Status
deriving DecidableEq, Repr

structure CCluster where
  nodes : List CSystem := [.theSystem]
  targets : List STarget := []
  discovering : Bool := false
  viewSystem : Option Remote := none
  graphSystem : Option Remote := none
  clusterMode : Bool := false
  connects : List Connecting := []
  removes : List Removing := []
  answers : List Answer := []
  /-- Numbers entries, calls and objects. -/
  fresh : Nat := 0
deriving DecidableEq, Repr

/-- An entry of Targets.xml. -/
structure Record where
  name : QString
  address : QString
  machineId : QString
deriving DecidableEq, Repr

variable (qt : Qt)

/-! ## The target list -/

def find_target (targets : List STarget) (name : QString) : Option Nat :=
  targets.findIdx? (fun target => decide (qt.Same target.name name))

def add_target (cluster : CCluster) (name address : QString) : CCluster :=
  match find_target qt cluster.targets name with
  | some index => { cluster with targets := cluster.targets.modify index (fun target => { target with address := address }) }
  | none =>
    { cluster with
      targets := cluster.targets ++ [{ name := name, address := address, entry := cluster.fresh }]
      fresh := cluster.fresh + 1 }

/-- No entry but the one at `index` has the name. -/
def nameFree (targets : List STarget) (index : Nat) (name : QString) : Bool :=
  (targets.eraseIdx index).all (fun target => !decide (qt.Same target.name name))

def renamed (newName address : QString) (target : STarget) : STarget :=
  { target with
    name := newName
    address := address
    state := if target.state = .discovered then .saved else target.state }

def update_target (cluster : CCluster) (oldName newName address : QString) : CCluster :=
  match find_target qt cluster.targets oldName with
  | none => cluster
  | some index =>
    if qt.Same newName oldName ∨ nameFree qt cluster.targets index newName then
      { cluster with targets := cluster.targets.modify index (renamed newName address) }
    else cluster

/-- `m_ViewSystem` and `m_GraphSystem` fall back to the local machine. -/
def dropped (gone : Remote) (shown : Option Remote) : Option Remote := if shown = some gone then none else shown

def disconnect (cluster : CCluster) (name : QString) : CCluster :=
  match find_target qt cluster.targets name with
  | none => cluster
  | some index =>
    match (cluster.targets[index]?).bind STarget.system with
    | none => cluster
    | some gone =>
      { cluster with
        targets := cluster.targets.modify index (fun target => { target with system := none, state := .saved })
        nodes := cluster.nodes.erase (.remote gone)
        viewSystem := dropped gone cluster.viewSystem
        graphSystem := dropped gone cluster.graphSystem }

/-- The second section of `RemoveTarget`. -/
def erase_target (cluster : CCluster) (name : QString) : CCluster :=
  match find_target qt cluster.targets name with
  | none => cluster
  | some index => { cluster with targets := cluster.targets.eraseIdx index }

/-- The name of a discovered machine. -/
def announced (address hostName : QString) : QString :=
  if hostName = [] then address else qt.arg (qt.arg ['%', '1', ' ', '(', '%', '2', ')'] hostName) address

/-- An entry that makes an announcement no discovery. -/
def knows (address machineId : QString) (target : STarget) : Bool :=
  (machineId ≠ [] ∧ target.machineId = machineId) ∨ target.address = address

def on_discovered (cluster : CCluster) (address hostName machineId : QString) : CCluster :=
  if cluster.targets.any (knows address machineId) then cluster
  else
    { cluster with
      targets := cluster.targets ++ [{
        name := announced qt address hostName
        address := address
        machineId := machineId
        state := .discovered
        entry := cluster.fresh }]
      fresh := cluster.fresh + 1 }

def stop_discovery (cluster : CCluster) : CCluster :=
  if cluster.discovering then
    { cluster with
      discovering := false
      targets := cluster.targets.filter (fun target => target.state ≠ .discovered) }
  else cluster

def loaded (fresh : Nat) : List Record → List STarget
  | [] => []
  | record :: rest =>
    if record.name = [] then loaded fresh rest
    else
      { name := record.name, address := record.address, machineId := record.machineId, entry := fresh } ::
        loaded (fresh + 1) rest

def load_targets (cluster : CCluster) (file : List Record) : CCluster :=
  { cluster with targets := loaded cluster.fresh file, fresh := cluster.fresh + file.length }

def store_targets (targets : List STarget) : List Record :=
  (targets.filter (fun target => target.state ≠ .discovered ∧ target.localDaemon = false)).map
    (fun target => ⟨target.name, target.address, target.machineId⟩)

/-! ## Connect -/

def findCall (cluster : CCluster) (call : Nat) : Option Connecting := cluster.connects.find? (fun one => one.call = call)

def setStage (cluster : CCluster) (call : Nat) (stage : Stage) : CCluster :=
  { cluster with
    connects := cluster.connects.map (fun one => if one.call = call then { one with stage := stage } else one) }

def answer (cluster : CCluster) (call : Nat) (system : Option Remote) (status : Option Status) : CCluster :=
  { cluster with
    connects := cluster.connects.filter (fun one => one.call ≠ call)
    answers := cluster.answers ++ [⟨call, system, status⟩] }

/-- `AddTarget`, the first thing a `Connect` does. -/
def connect (cluster : CCluster) (name address : QString) (identity : EIdentityPolicy) (takeView : Bool) : CCluster :=
  let cluster := add_target qt cluster name address
  { cluster with
    connects := cluster.connects ++ [⟨cluster.fresh, name, address, identity, takeView, .added⟩]
    fresh := cluster.fresh + 1 }

/-- The section that finds the machine already up, or marks the entry. -/
def begin_connect (cluster : CCluster) (one : Connecting) : CCluster :=
  match find_target qt cluster.targets one.name with
  | none => setStage cluster one.call .marked
  | some index =>
    match (cluster.targets[index]?).bind STarget.system with
    | some up => answer cluster one.call (some up) none
    | none =>
      setStage { cluster with
        targets := cluster.targets.modify index (fun target => { target with state := .connecting, caller := some one.call }) }
        one.call .marked

/-- What the entry has been answering to so far. -/
def expectedId (cluster : CCluster) (one : Connecting) : QString :=
  match one.identity with
  | .acceptNew => []
  | .requireSaved =>
    match find_target qt cluster.targets one.name with
    | none => []
    | some index => ((cluster.targets[index]?).map STarget.machineId).getD []

def read_expected (cluster : CCluster) (one : Connecting) : CCluster :=
  setStage cluster one.call (.expecting (expectedId qt cluster one))

/-- `CRemoteLoader::Create` gave nothing. -/
def no_remote (cluster : CCluster) (one : Connecting) (available : Bool) : CCluster :=
  answer cluster one.call none (some (if available then .noCertificate else .noRemoteModule))

/-- The entry of a machine that answered. -/
def credited (object : Remote) (target : STarget) : STarget :=
  { target with state := .connected, lastError := 0, system := some object, machineId := object.machineId }

/-- The section behind the handshake. -/
def finish_connect (cluster : CCluster) (one : Connecting) (result : Except Nat QString) : CCluster :=
  match find_target qt cluster.targets one.name, result with
  | none, .ok _ => answer cluster one.call none (some .ok)
  | none, .error code => answer cluster one.call none (some (.refused code))
  | some index, .error code =>
    answer { cluster with
      targets := cluster.targets.modify index (fun target => { target with state := .failed, lastError := code }) }
      one.call none (some (.refused code))
  | some index, .ok machineId =>
    let object : Remote := ⟨cluster.fresh, one.address, machineId, machineId⟩
    answer { cluster with
      targets := cluster.targets.modify index (credited object)
      nodes := if .remote object ∈ cluster.nodes then cluster.nodes else cluster.nodes ++ [.remote object]
      viewSystem := if !cluster.clusterMode && one.takeView then some object else cluster.viewSystem
      fresh := cluster.fresh + 1 }
      one.call (some object) (some .ok)

/-! ## What the remote objects report -/

def findSystem (targets : List STarget) (object : Remote) : Option Nat :=
  targets.findIdx? (fun target => decide (target.system = some object))

/-- A change of the entry that a remote object belongs to. -/
def onSystem (cluster : CCluster) (object : Remote) (change : STarget → STarget) : CCluster :=
  match findSystem cluster.targets object with
  | none => cluster
  | some index => { cluster with targets := cluster.targets.modify index change }

def on_connection_lost (cluster : CCluster) (object : Remote) : CCluster :=
  onSystem cluster object (fun target => { target with state := .lost })

def on_reconnect_refused (cluster : CCluster) (object : Remote) (code : Nat) : CCluster :=
  onSystem cluster object (fun target => { target with state := .failed, lastError := code })

def on_reconnected (cluster : CCluster) (object : Remote) : CCluster :=
  onSystem cluster object (fun target => { target with state := .connected, lastRetry := 0 })

/-- The ticks are 64 bits wide. -/
def retried (now interval : Nat) (target : STarget) : STarget :=
  if target.state ≠ .lost ∨ target.system = none then target
  else if target.lastRetry ≠ 0 ∧ (now + 2 ^ 64 - target.lastRetry) % 2 ^ 64 < interval then target
  else { target with lastRetry := now }

def retry_lost_nodes (cluster : CCluster) (now interval : Nat) : CCluster :=
  { cluster with targets := cluster.targets.map (retried now interval) }

/-- The last section of `ConnectLocalDaemon`. -/
def mark_local_daemon (cluster : CCluster) (name : QString) : CCluster :=
  match find_target qt cluster.targets name with
  | none => cluster
  | some index => { cluster with targets := cluster.targets.modify index (fun target => { target with localDaemon := true }) }

/-! ## What is being shown -/

/-- A pointer is resolved against the nodes; the local machine is kept as null. -/
def resolved (nodes : List CSystem) (system : CSystem) : Option Remote :=
  match nodes.find? (fun node => node = system) with
  | some (.remote object) => some object
  | _ => none

def set_view_system (cluster : CCluster) (system : CSystem) : CCluster :=
  { cluster with viewSystem := resolved cluster.nodes system }

def set_graph_system (cluster : CCluster) (system : CSystem) : CCluster :=
  { cluster with graphSystem := resolved cluster.nodes system }

def set_cluster_mode (cluster : CCluster) (on : Bool) : CCluster :=
  if cluster.clusterMode = on then cluster
  else { cluster with clusterMode := on, graphSystem := if on then cluster.viewSystem else none }

/-! ## Steps -/

inductive Action where
  | addTarget (name address : QString)
  | updateTarget (oldName newName address : QString)
  | disconnect (name : QString)
  | removeTarget (name : QString)
  | eraseTarget (call : Nat)
  | onDiscovered (address hostName machineId : QString)
  | startDiscovery
  | stopDiscovery
  | loadTargets (file : List Record)
  | connect (name address : QString) (identity : EIdentityPolicy) (takeView : Bool)
  | beginConnect (call : Nat)
  | readExpected (call : Nat)
  | noRemote (call : Nat) (available : Bool)
  | finishConnect (call : Nat) (result : Except Nat QString)
  | connectionLost (object : Remote)
  | reconnectRefused (object : Remote) (code : Nat)
  | reconnected (object : Remote)
  | retryLostNodes (now interval : Nat)
  | markLocalDaemon (name : QString)
  | setViewSystem (system : CSystem)
  | setGraphSystem (system : CSystem)
  | setClusterMode (on : Bool)

/-- A remote object refuses a machine whose id is not the one it was told to
    expect. -/
def Accepted (expected : QString) : Except Nat QString → Prop
  | .ok machineId => expected = [] ∨ machineId = expected
  | .error _ => True

instance (expected : QString) : ∀ result, Decidable (Accepted expected result)
  | .ok machineId => inferInstanceAs (Decidable (expected = [] ∨ machineId = expected))
  | .error _ => isTrue trivial

/-- One locked section. A section of a call that is not there, or not that far,
    does not happen. -/
def step (cluster : CCluster) : Action → Option CCluster
  | .addTarget name address => some (add_target qt cluster name address)
  | .updateTarget oldName newName address => some (update_target qt cluster oldName newName address)
  | .disconnect name => some (disconnect qt cluster name)
  | .removeTarget name =>
    let cluster := disconnect qt cluster name
    some { cluster with removes := cluster.removes ++ [⟨cluster.fresh, name⟩], fresh := cluster.fresh + 1 }
  | .eraseTarget call =>
    (cluster.removes.find? (fun one => one.call = call)).map (fun one =>
      { erase_target qt cluster one.name with removes := cluster.removes.filter (fun other => other.call ≠ call) })
  | .onDiscovered address hostName machineId => some (on_discovered qt cluster address hostName machineId)
  | .startDiscovery => some { cluster with discovering := true }
  | .stopDiscovery => some (stop_discovery cluster)
  | .loadTargets file => some (load_targets cluster file)
  | .connect name address identity takeView => some (connect qt cluster name address identity takeView)
  | .beginConnect call =>
    (findCall cluster call).bind (fun one => if one.stage = .added then some (begin_connect qt cluster one) else none)
  | .readExpected call =>
    (findCall cluster call).bind (fun one => if one.stage = .marked then some (read_expected qt cluster one) else none)
  | .noRemote call available =>
    (findCall cluster call).bind (fun one =>
      match one.stage with
      | .expecting _ => some (no_remote cluster one available)
      | _ => none)
  | .finishConnect call result =>
    (findCall cluster call).bind (fun one =>
      match one.stage with
      | .expecting expected => if Accepted expected result then some (finish_connect qt cluster one result) else none
      | _ => none)
  | .connectionLost object => some (on_connection_lost cluster object)
  | .reconnectRefused object code => some (on_reconnect_refused cluster object code)
  | .reconnected object => some (on_reconnected cluster object)
  | .retryLostNodes now interval => some (retry_lost_nodes cluster now interval)
  | .markLocalDaemon name => some (mark_local_daemon qt cluster name)
  | .setViewSystem system => some (set_view_system cluster system)
  | .setGraphSystem system => some (set_graph_system cluster system)
  | .setClusterMode on => some (set_cluster_mode cluster on)

/-! ## Finding an entry -/

variable {qt : Qt}

/-- The entry that a name finds. -/
def entryOf (qt : Qt) (targets : List STarget) (name : QString) : Option STarget :=
  (find_target qt targets name).bind (fun index => targets[index]?)

theorem find_target_some {targets : List STarget} {name : QString} {index : Nat}
    (found : find_target qt targets name = some index) :
    ∃ before target after, targets = before ++ target :: after ∧ before.length = index ∧
      entryOf qt targets name = some target ∧ qt.Same target.name name ∧ ∀ other ∈ before, ¬ qt.Same other.name name := by
  obtain ⟨before, target, after, rfl, rfl, matched, passed⟩ := findIdx?_split found
  refine ⟨before, target, after, rfl, rfl, ?_, by simpa using matched, fun other member => by simpa using passed other member⟩
  simp [entryOf, found]

theorem find_target_none {targets : List STarget} {name : QString} (absent : find_target qt targets name = none) :
    ∀ target ∈ targets, ¬ qt.Same target.name name := by
  intro target member
  have missed := List.findIdx?_eq_none_iff.mp absent target member
  simpa using missed

theorem loaded_new (file : List Record) (fresh : Nat) :
    ∀ target ∈ loaded fresh file, target.state = .saved ∧ target.system = none := by
  induction file generalizing fresh with
  | nil => simp [loaded]
  | cons record rest ih =>
    intro target member
    rw [loaded] at member
    split_ifs at member
    · exact ih fresh target member
    · rcases List.mem_cons.mp member with rfl | later
      · exact ⟨rfl, rfl⟩
      · exact ih _ target later

/-! ## What a step can do -/

/-- An entry before and after a report about its system: only the state can
    change, and only of an entry that has a system. -/
structure Report (target later : STarget) : Prop where
  name : later.name = target.name
  address : later.address = target.address
  machineId : later.machineId = target.machineId
  system : later.system = target.system
  caller : later.caller = target.caller
  state : later.state = target.state ∨ (target.system ≠ none ∧ (later.state = .lost ∨ later.state = .failed ∨ later.state = .connected))

theorem Report.refl (target : STarget) : Report target target := ⟨rfl, rfl, rfl, rfl, rfl, .inl rfl⟩

/-- Nothing happened but reports. -/
structure Reported (cluster later : CCluster) : Prop where
  targets : List.Forall₂ Report cluster.targets later.targets
  nodes : later.nodes = cluster.nodes
  connects : later.connects = cluster.connects
  answers : later.answers = cluster.answers
  fresh : later.fresh = cluster.fresh

theorem reported_of_targets {cluster : CCluster} {targets : List STarget} (each : List.Forall₂ Report cluster.targets targets) :
    Reported cluster { cluster with targets := targets } := ⟨each, rfl, rfl, rfl, rfl⟩

theorem reported_refl (cluster : CCluster) : Reported cluster cluster :=
  reported_of_targets (List.forall₂_same.mpr (fun target _ => Report.refl target))

theorem onSystem_reported (cluster : CCluster) (object : Remote) {change : STarget → STarget}
    (report : ∀ target, target.system ≠ none → Report target (change target)) :
    Reported cluster (onSystem cluster object change) := by
  unfold onSystem
  cases found : findSystem cluster.targets object with
  | none => exact reported_refl cluster
  | some index =>
    apply reported_of_targets
    apply forall₂_modify Report.refl
    obtain ⟨before, target, after, split, rfl, owned, -⟩ := findIdx?_split found
    intro other here
    rw [split, List.getElem?_append_right (Nat.le_refl _), Nat.sub_self] at here
    cases here
    have present : target.system = some object := by simpa using owned
    exact report target (by simp [present])

/-- The steps, each with what led to it. -/
inductive Took (qt : Qt) (cluster : CCluster) : Action → CCluster → Prop where
  | quiet {action : Action} {later : CCluster} (reported : Reported cluster later) : Took qt cluster action later
  | addTarget (name address : QString) : Took qt cluster (.addTarget name address) (add_target qt cluster name address)
  | updateTarget (oldName newName address : QString) :
    Took qt cluster (.updateTarget oldName newName address) (update_target qt cluster oldName newName address)
  | disconnect (name : QString) : Took qt cluster (.disconnect name) (disconnect qt cluster name)
  | removeTarget {name : QString} (removes : List Removing) :
    Took qt cluster (.removeTarget name) { Cluster.disconnect qt cluster name with removes := removes, fresh := cluster.fresh + 1 }
  | eraseTarget {call : Nat} {one : Removing} (pending : cluster.removes.find? (fun other => other.call = call) = some one)
    (removes : List Removing) : Took qt cluster (.eraseTarget call) { erase_target qt cluster one.name with removes := removes }
  | onDiscovered (address hostName machineId : QString) :
    Took qt cluster (.onDiscovered address hostName machineId) (on_discovered qt cluster address hostName machineId)
  | stopDiscovery : Took qt cluster .stopDiscovery (stop_discovery cluster)
  | loadTargets (file : List Record) : Took qt cluster (.loadTargets file) (load_targets cluster file)
  | connect (name address : QString) (identity : EIdentityPolicy) (takeView : Bool) :
    Took qt cluster (.connect name address identity takeView) (connect qt cluster name address identity takeView)
  | beginConnect {call : Nat} {one : Connecting} (pending : findCall cluster call = some one) (stage : one.stage = .added) :
    Took qt cluster (.beginConnect call) (begin_connect qt cluster one)
  | readExpected {call : Nat} {one : Connecting} (pending : findCall cluster call = some one) (stage : one.stage = .marked) :
    Took qt cluster (.readExpected call) (read_expected qt cluster one)
  | noRemote {call : Nat} {one : Connecting} {expected : QString} (pending : findCall cluster call = some one)
    (stage : one.stage = .expecting expected) (available : Bool) :
    Took qt cluster (.noRemote call available) (no_remote cluster one available)
  | finishConnect {call : Nat} {one : Connecting} {expected : QString} {result : Except Nat QString}
    (pending : findCall cluster call = some one) (stage : one.stage = .expecting expected)
    (accepted : Accepted expected result) : Took qt cluster (.finishConnect call result) (finish_connect qt cluster one result)

theorem disconnect_fresh (cluster : CCluster) (name : QString) : (disconnect qt cluster name).fresh = cluster.fresh := by
  unfold disconnect
  split
  · rfl
  · split <;> rfl

theorem step_took {cluster later : CCluster} {action : Action} (moved : step qt cluster action = some later) :
    Took qt cluster action later := by
  cases action with
  | addTarget name address =>
    cases moved
    exact .addTarget name address
  | updateTarget oldName newName address =>
    cases moved
    exact .updateTarget oldName newName address
  | disconnect name =>
    cases moved
    exact .disconnect name
  | removeTarget name =>
    cases moved
    rw [disconnect_fresh]
    exact .removeTarget _
  | eraseTarget call =>
    obtain ⟨one, pending, rfl⟩ := Option.map_eq_some_iff.mp moved
    exact .eraseTarget pending _
  | onDiscovered address hostName machineId =>
    cases moved
    exact .onDiscovered address hostName machineId
  | startDiscovery =>
    cases moved
    exact .quiet { reported_refl cluster with }
  | stopDiscovery =>
    cases moved
    exact .stopDiscovery
  | loadTargets file =>
    cases moved
    exact .loadTargets file
  | connect name address identity takeView =>
    cases moved
    exact .connect name address identity takeView
  | beginConnect call =>
    obtain ⟨one, pending, allowed⟩ := Option.bind_eq_some_iff.mp moved
    split_ifs at allowed with stage
    cases allowed
    exact .beginConnect pending stage
  | readExpected call =>
    obtain ⟨one, pending, allowed⟩ := Option.bind_eq_some_iff.mp moved
    split_ifs at allowed with stage
    cases allowed
    exact .readExpected pending stage
  | noRemote call available =>
    obtain ⟨one, pending, allowed⟩ := Option.bind_eq_some_iff.mp moved
    split at allowed
    · rename_i expected stage
      cases allowed
      exact .noRemote pending stage available
    · cases allowed
  | finishConnect call result =>
    obtain ⟨one, pending, allowed⟩ := Option.bind_eq_some_iff.mp moved
    split at allowed
    · rename_i expected stage
      split_ifs at allowed with accepted
      cases allowed
      exact .finishConnect pending stage accepted
    · cases allowed
  | connectionLost object =>
    cases moved
    apply Took.quiet
    apply onSystem_reported
    intro target owned
    exact ⟨rfl, rfl, rfl, rfl, rfl, .inr ⟨owned, .inl rfl⟩⟩
  | reconnectRefused object code =>
    cases moved
    apply Took.quiet
    apply onSystem_reported
    intro target owned
    exact ⟨rfl, rfl, rfl, rfl, rfl, .inr ⟨owned, .inr (.inl rfl)⟩⟩
  | reconnected object =>
    cases moved
    apply Took.quiet
    apply onSystem_reported
    intro target owned
    exact ⟨rfl, rfl, rfl, rfl, rfl, .inr ⟨owned, .inr (.inr rfl)⟩⟩
  | retryLostNodes now interval =>
    cases moved
    apply Took.quiet
    apply reported_of_targets
    rw [List.forall₂_map_right_iff, List.forall₂_same]
    intro target member
    unfold retried
    split_ifs
    · exact Report.refl target
    · exact Report.refl target
    · exact ⟨rfl, rfl, rfl, rfl, rfl, .inl rfl⟩
  | markLocalDaemon name =>
    cases moved
    apply Took.quiet
    unfold mark_local_daemon
    split
    · exact reported_refl cluster
    · apply reported_of_targets
      apply forall₂_modify Report.refl
      intro target here
      exact ⟨rfl, rfl, rfl, rfl, rfl, .inl rfl⟩
  | setViewSystem system =>
    cases moved
    exact .quiet { reported_refl cluster with }
  | setGraphSystem system =>
    cases moved
    exact .quiet { reported_refl cluster with }
  | setClusterMode on =>
    cases moved
    apply Took.quiet
    unfold set_cluster_mode
    split
    · exact reported_refl cluster
    · exact { reported_refl cluster with }

end TaskExplorer.Cluster
