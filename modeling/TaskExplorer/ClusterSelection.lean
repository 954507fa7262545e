import TaskExplorer.Cluster

/-!
# What the window follows

The panels and the graphs each follow one machine, kept as a pointer of its own
beside the list of nodes. A pointer that is not null is one of the nodes, and never
the local machine, whatever order the sections of the calls come in.
-/

namespace TaskExplorer.ClusterSelection
open ListEdits Transition Cluster

/-! ## Nodes from outside -/

/-- A null pointer is not added. -/
def add_node (cluster : CCluster) : Option CSystem → CCluster
  | none => cluster
  | some system => if system ∈ cluster.nodes then cluster else { cluster with nodes := cluster.nodes ++ [system] }

/-- `clear` of a selection that is the node. -/
def cleared (gone : CSystem) (shown : Option Remote) : Option Remote := if shown.map CSystem.remote = some gone then none else shown

def remove_node (cluster : CCluster) (system : CSystem) : CCluster :=
  if system ∈ cluster.nodes then
    { cluster with
      nodes := cluster.nodes.erase system
      viewSystem := cleared system cluster.viewSystem
      graphSystem := cleared system cluster.graphSystem }
  else cluster

/-- The section of `SetClusterMode` that holds the lock; the flag is read before it and
    written behind it without the lock. -/
def graph_follows (cluster : CCluster) (on : Bool) : CCluster := { cluster with graphSystem := if on then cluster.viewSystem else none }

inductive Move where
  | act (action : Action)
  | addNode (system : Option CSystem)
  | removeNode (system : CSystem)
  | graphFollows (on : Bool)
  | modeFlag (on : Bool)

def step (qt : Qt) (cluster : CCluster) : Move → Option CCluster
  | .act action => Cluster.step qt cluster action
  | .addNode system => some (add_node cluster system)
  | .removeNode system => some (remove_node cluster system)
  | .graphFollows on => some (graph_follows cluster on)
  | .modeFlag on => some { cluster with clusterMode := on }

/-! ## Selections -/

/-- A selection as a pointer to a system. -/
def pointer (shown : Option Remote) : Option CSystem := shown.map CSystem.remote

/-- Null, or a node other than the local system. -/
def Live (nodes : List CSystem) (shown : Option Remote) : Prop :=
  ∀ system, pointer shown = some system → system ∈ nodes ∧ system ≠ .theSystem

structure Following (cluster : CCluster) : Prop where
  view : Live cluster.nodes cluster.viewSystem
  graph : Live cluster.nodes cluster.graphSystem

section
variable {nodes : List CSystem}

theorem live_none : Live nodes none := by
  rintro system ⟨⟩

theorem live_remote {object : Remote} (member : .remote object ∈ nodes) : Live nodes (some object) := by
  rintro system ⟨⟩
  exact ⟨member, by simp⟩

theorem Live.more {shown : Option Remote} (live : Live nodes shown) {more : List CSystem} (subset : nodes ⊆ more) : Live more shown := by
  intro system chosen
  obtain ⟨member, remote⟩ := live system chosen
  exact ⟨subset member, remote⟩

theorem Live.cleared {shown : Option Remote} (live : Live nodes shown) (gone : CSystem) :
    Live (nodes.erase gone) (cleared gone shown) := by
  unfold ClusterSelection.cleared
  split_ifs with same
  · exact live_none
  · intro system chosen
    obtain ⟨member, remote⟩ := live system chosen
    have differs : system ≠ gone := by
      rintro rfl
      exact same chosen
    exact ⟨(List.mem_erase_of_ne differs).mpr member, remote⟩

theorem Live.dropped {shown : Option Remote} (live : Live nodes shown) (gone : Remote) :
    Live (nodes.erase (.remote gone)) (Cluster.dropped gone shown) := by
  have same : Cluster.dropped gone shown = ClusterSelection.cleared (.remote gone) shown := by
    cases shown with
    | none => rfl
    | some object => simp [Cluster.dropped, ClusterSelection.cleared]
  rw [same]
  exact live.cleared (.remote gone)

theorem live_resolved (nodes : List CSystem) (system : CSystem) : Live nodes (resolved nodes system) := by
  unfold resolved
  split
  · rename_i object found
    exact live_remote (List.mem_of_find?_eq_some found)
  · exact live_none

end

/-! ## Every section -/

/-- A section that leaves the nodes and both selections as they are. -/
structure Aside (cluster later : CCluster) : Prop where
  nodes : later.nodes = cluster.nodes
  view : later.viewSystem = cluster.viewSystem
  graph : later.graphSystem = cluster.graphSystem

section
variable {qt : Qt} {cluster later : CCluster}

theorem Following.aside (following : Following cluster) (aside : Aside cluster later) : Following later := by
  constructor
  · rw [aside.nodes, aside.view]
    exact following.view
  · rw [aside.nodes, aside.graph]
    exact following.graph

theorem add_target_aside (cluster : CCluster) (name address : QString) : Aside cluster (add_target qt cluster name address) := by
  unfold add_target
  split <;> exact ⟨rfl, rfl, rfl⟩

theorem update_target_aside (cluster : CCluster) (oldName newName address : QString) :
    Aside cluster (update_target qt cluster oldName newName address) := by
  unfold update_target
  split
  · exact ⟨rfl, rfl, rfl⟩
  · split_ifs <;> exact ⟨rfl, rfl, rfl⟩

theorem erase_target_aside (cluster : CCluster) (name : QString) : Aside cluster (erase_target qt cluster name) := by
  unfold erase_target
  split <;> exact ⟨rfl, rfl, rfl⟩

theorem on_discovered_aside (cluster : CCluster) (address hostName machineId : QString) :
    Aside cluster (on_discovered qt cluster address hostName machineId) := by
  unfold on_discovered
  split_ifs <;> exact ⟨rfl, rfl, rfl⟩

theorem stop_discovery_aside (cluster : CCluster) : Aside cluster (stop_discovery cluster) := by
  unfold stop_discovery
  split_ifs <;> exact ⟨rfl, rfl, rfl⟩

theorem onSystem_aside (cluster : CCluster) (object : Remote) (change : STarget → STarget) :
    Aside cluster (onSystem cluster object change) := by
  unfold onSystem
  split <;> exact ⟨rfl, rfl, rfl⟩

theorem mark_local_daemon_aside (cluster : CCluster) (name : QString) : Aside cluster (mark_local_daemon qt cluster name) := by
  unfold mark_local_daemon
  split <;> exact ⟨rfl, rfl, rfl⟩

theorem begin_connect_aside (cluster : CCluster) (one : Connecting) : Aside cluster (begin_connect qt cluster one) := by
  unfold begin_connect
  split
  · exact ⟨rfl, rfl, rfl⟩
  · split <;> exact ⟨rfl, rfl, rfl⟩

theorem Following.disconnect (following : Following cluster) (name : QString) : Following (disconnect qt cluster name) := by
  unfold Cluster.disconnect
  split
  · exact following
  · split
    · exact following
    · rename_i gone _
      exact ⟨following.view.dropped gone, following.graph.dropped gone⟩

theorem Following.finish_connect (following : Following cluster) (one : Connecting) (result : Except Nat QString) :
    Following (finish_connect qt cluster one result) := by
  unfold Cluster.finish_connect
  split
  · exact ⟨following.view, following.graph⟩
  · exact ⟨following.view, following.graph⟩
  · exact ⟨following.view, following.graph⟩
  · rename_i index machineId _
    let object : Remote := ⟨cluster.fresh, one.address, machineId, machineId⟩
    let nodes := if .remote object ∈ cluster.nodes then cluster.nodes else cluster.nodes ++ [.remote object]
    have more : cluster.nodes ⊆ nodes := by
      intro system member
      simp only [nodes]
      split_ifs <;> simp [member]
    have there : .remote object ∈ nodes := by
      simp only [nodes]
      split_ifs with known <;> simp [known]
    refine ⟨?_, following.graph.more more⟩
    change Live nodes (if !cluster.clusterMode && one.takeView then some object else cluster.viewSystem)
    split_ifs
    · exact live_remote there
    · exact following.view.more more

theorem Following.add_node (following : Following cluster) (system : Option CSystem) : Following (add_node cluster system) := by
  unfold ClusterSelection.add_node
  split
  · exact following
  · split_ifs
    · exact following
    · exact ⟨following.view.more (List.subset_append_left _ _), following.graph.more (List.subset_append_left _ _)⟩

theorem Following.remove_node (following : Following cluster) (system : CSystem) : Following (remove_node cluster system) := by
  unfold ClusterSelection.remove_node
  split_ifs
  · exact ⟨following.view.cleared system, following.graph.cleared system⟩
  · exact following

theorem Following.graph_follows (following : Following cluster) (on : Bool) : Following (graph_follows cluster on) := by
  refine ⟨following.view, ?_⟩
  cases on with
  | true => exact following.view
  | false => exact live_none

theorem Following.act (following : Following cluster) {action : Action} (moved : Cluster.step qt cluster action = some later) :
    Following later := by
  cases action with
  | addTarget name address =>
    cases moved
    exact following.aside (add_target_aside cluster name address)
  | updateTarget oldName newName address =>
    cases moved
    exact following.aside (update_target_aside cluster oldName newName address)
  | disconnect name =>
    cases moved
    exact following.disconnect name
  | removeTarget name =>
    cases moved
    exact (following.disconnect name).aside ⟨rfl, rfl, rfl⟩
  | eraseTarget call =>
    obtain ⟨one, -, rfl⟩ := Option.map_eq_some_iff.mp moved
    exact (following.aside (erase_target_aside cluster one.name)).aside ⟨rfl, rfl, rfl⟩
  | onDiscovered address hostName machineId =>
    cases moved
    exact following.aside (on_discovered_aside cluster address hostName machineId)
  | startDiscovery =>
    cases moved
    exact following.aside ⟨rfl, rfl, rfl⟩
  | stopDiscovery =>
    cases moved
    exact following.aside (stop_discovery_aside cluster)
  | loadTargets file =>
    cases moved
    exact following.aside ⟨rfl, rfl, rfl⟩
  | connect name address identity takeView =>
    cases moved
    exact (following.aside (add_target_aside cluster name address)).aside ⟨rfl, rfl, rfl⟩
  | beginConnect call =>
    obtain ⟨one, -, allowed⟩ := Option.bind_eq_some_iff.mp moved
    split_ifs at allowed
    cases allowed
    exact following.aside (begin_connect_aside cluster one)
  | readExpected call =>
    obtain ⟨one, -, allowed⟩ := Option.bind_eq_some_iff.mp moved
    split_ifs at allowed
    cases allowed
    exact following.aside ⟨rfl, rfl, rfl⟩
  | noRemote call available =>
    obtain ⟨one, -, allowed⟩ := Option.bind_eq_some_iff.mp moved
    split at allowed
    · cases allowed
      exact following.aside ⟨rfl, rfl, rfl⟩
    · cases allowed
  | finishConnect call result =>
    obtain ⟨one, -, allowed⟩ := Option.bind_eq_some_iff.mp moved
    split at allowed
    · split_ifs at allowed
      cases allowed
      exact following.finish_connect one result
    · cases allowed
  | connectionLost object =>
    cases moved
    exact following.aside (onSystem_aside cluster object _)
  | reconnectRefused object code =>
    cases moved
    exact following.aside (onSystem_aside cluster object _)
  | reconnected object =>
    cases moved
    exact following.aside (onSystem_aside cluster object _)
  | retryLostNodes now interval =>
    cases moved
    exact following.aside ⟨rfl, rfl, rfl⟩
  | markLocalDaemon name =>
    cases moved
    exact following.aside (mark_local_daemon_aside cluster name)
  | setViewSystem system =>
    cases moved
    exact ⟨live_resolved cluster.nodes system, following.graph⟩
  | setGraphSystem system =>
    cases moved
    exact ⟨following.view, live_resolved cluster.nodes system⟩
  | setClusterMode on =>
    cases moved
    by_cases same : cluster.clusterMode = on
    · rw [set_cluster_mode, if_pos same]
      exact following
    · rw [set_cluster_mode, if_neg same]
      exact (following.graph_follows on).aside ⟨rfl, rfl, rfl⟩

theorem Following.step (following : Following cluster) {move : Move} (moved : step qt cluster move = some later) : Following later := by
  cases move with
  | act action => exact following.act moved
  | addNode system =>
    cases moved
    exact following.add_node system
  | removeNode system =>
    cases moved
    exact following.remove_node system
  | graphFollows on =>
    cases moved
    exact following.graph_follows on
  | modeFlag on =>
    cases moved
    exact following.aside ⟨rfl, rfl, rfl⟩

end

/-- The selections point at a node that is there, or at nothing. -/
theorem selections_live {qt : Qt} {cluster : CCluster} (run : Run (step qt) Always {} cluster) : Following cluster := by
  apply run.invariant Following ⟨live_none, live_none⟩
  intro state event later following _ moved
  exact following.step moved

/-- A machine is connected and shown, and the graphs take it over from the panels. -/
def followedRun : List Move :=
  [.act (.connect ['b', 'o', 'x'] ['a', ':', '1'] .requireSaved true), .act (.beginConnect 1), .act (.readExpected 1),
    .act (.finishConnect 1 (.ok ['7'])), .graphFollows true, .modeFlag true]

theorem selections_live_followed :
    ∃ cluster, runs (step asciiQt) {} followedRun = some cluster ∧
      pointer cluster.graphSystem = some (.remote ⟨2, ['a', ':', '1'], ['7'], ['7']⟩) ∧ Following cluster := by
  have meets : Meets (step asciiQt) Always {} followedRun := meets_always _ _
  exact ⟨_, rfl, rfl, selections_live (Run.of_runs .start meets rfl)⟩

end TaskExplorer.ClusterSelection
