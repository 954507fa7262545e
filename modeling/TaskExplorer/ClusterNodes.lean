import TaskExplorer.Cluster

/-!
# Nodes and their targets

A connected machine is taken out of the tree through the entry it belongs to, so
one that no entry refers to stays there for ever.
-/

namespace TaskExplorer.ClusterNodes
open ListEdits Transition Cluster
set_option linter.unusedSimpArgs false

variable {qt : Qt}

/-- The connected machines of the tree, without the local one. -/
def remotes (nodes : List CSystem) : List Remote :=
  nodes.filterMap (fun node => match node with
    | .remote object => some object
    | .theSystem => none)

/-- The systems that the entries refer to. -/
def systems (targets : List STarget) : List Remote := targets.filterMap STarget.system

/-- Every connected machine is the system of exactly one entry, and every system
    of an entry is in the tree. -/
structure Owned (cluster : CCluster) : Prop where
  one : ∀ object, .remote object ∈ cluster.nodes →
    (cluster.targets.filter (fun target => target.system = some object)).length = 1
  shown : ∀ target ∈ cluster.targets, ∀ object, target.system = some object → .remote object ∈ cluster.nodes

/-- No step drops or replaces the system of an entry and leaves it in the tree:
    a handshake that succeeds and the second half of `RemoveTarget` find an entry
    without one, and the file is read while nothing is connected. -/
def Undisputed (qt : Qt) (cluster : CCluster) : Action → Prop
  | .finishConnect call (.ok _) =>
    ∀ one ∈ findCall cluster call, ∀ target ∈ entryOf qt cluster.targets one.name, target.system = none
  | .eraseTarget call =>
    ∀ one ∈ cluster.removes.find? (fun one => one.call = call),
      ∀ target ∈ entryOf qt cluster.targets one.name, target.system = none
  | .loadTargets _ => ∀ target ∈ cluster.targets, target.system = none
  | _ => True

instance (qt : Qt) (cluster : CCluster) : ∀ action, Decidable (Undisputed qt cluster action)
  | .finishConnect _ (.ok _) => inferInstanceAs (Decidable (∀ one ∈ findCall cluster _, _))
  | .eraseTarget _ => inferInstanceAs (Decidable (∀ one ∈ List.find? _ cluster.removes, _))
  | .loadTargets _ => inferInstanceAs (Decidable (∀ target ∈ cluster.targets, _))
  | .addTarget .. | .updateTarget .. | .disconnect .. | .removeTarget .. | .onDiscovered .. | .startDiscovery
  | .stopDiscovery | .connect .. | .beginConnect .. | .readExpected .. | .noRemote .. | .finishConnect _ (.error _)
  | .connectionLost .. | .reconnectRefused .. | .reconnected .. | .retryLostNodes .. | .markLocalDaemon ..
  | .setViewSystem .. | .setGraphSystem .. | .setClusterMode .. => isTrue trivial

/-- What every step keeps. -/
structure Linked (cluster : CCluster) : Prop where
  same : (systems cluster.targets).Perm (remotes cluster.nodes)
  once : (systems cluster.targets).Nodup
  older : ∀ object ∈ systems cluster.targets, object.pointer < cluster.fresh
  idle : ∀ target ∈ cluster.targets, target.state = .discovered → target.system = none

/-! ## Systems and nodes -/

theorem mem_remotes {nodes : List CSystem} {object : Remote} : object ∈ remotes nodes ↔ .remote object ∈ nodes := by
  rw [remotes, List.mem_filterMap]
  constructor
  · rintro ⟨node, member, shown⟩
    cases node with
    | theSystem => cases shown
    | remote other =>
      cases shown
      exact member
  · intro member
    exact ⟨.remote object, member, rfl⟩

theorem remotes_erase (nodes : List CSystem) (gone : Remote) :
    remotes (nodes.erase (.remote gone)) = (remotes nodes).erase gone := by
  induction nodes with
  | nil => rfl
  | cons node rest ih =>
    by_cases same : node = .remote gone
    · subst same
      simp [remotes]
    · rw [List.erase_cons_tail (by simpa using same)]
      cases node with
      | theSystem => simpa [remotes] using ih
      | remote other =>
        have different : other ≠ gone := by simpa using same
        simp only [remotes, List.filterMap_cons] at ih ⊢
        rw [List.erase_cons_tail (by simpa using different), ih]

theorem systems_eq_map (targets : List STarget) : systems targets = (targets.map STarget.system).filterMap id := by
  simp [systems, List.filterMap_map, Function.comp_def]

theorem systems_modify {targets : List STarget} {index : Nat} {change : STarget → STarget}
    (same : ∀ target, (change target).system = target.system) : systems (targets.modify index change) = systems targets := by
  rw [systems_eq_map, map_modify_same same, ← systems_eq_map]

theorem systems_append (before after : List STarget) : systems (before ++ after) = systems before ++ systems after :=
  List.filterMap_append

theorem systems_idle {targets : List STarget} (idle : ∀ target ∈ targets, target.system = none) : systems targets = [] := by
  rw [systems, List.filterMap_eq_nil_iff]
  exact idle

theorem systems_cons_none {target : STarget} (idle : target.system = none) (rest : List STarget) :
    systems (target :: rest) = systems rest := by
  simp [systems, List.filterMap_cons, idle]

theorem systems_cons_some {target : STarget} {object : Remote} (owner : target.system = some object) (rest : List STarget) :
    systems (target :: rest) = object :: systems rest := by
  simp [systems, List.filterMap_cons, owner]

theorem count_systems (targets : List STarget) (object : Remote) :
    (systems targets).count object = (targets.filter (fun target => target.system = some object)).length := by
  induction targets with
  | nil => rfl
  | cons target rest ih =>
    cases owner : target.system with
    | none => simp [systems_cons_none owner, ih, owner]
    | some other =>
      by_cases same : other = object
      · simp [systems_cons_some owner, ih, owner, same]
      · simp [systems_cons_some owner, ih, owner, same]

variable {cluster : CCluster}

theorem Linked.owned (linked : Linked cluster) : Owned cluster where
  one object member := by
    rw [← count_systems]
    rw [linked.once.count, if_pos (linked.same.mem_iff.mpr (mem_remotes.mpr member))]
  shown target member object owner := by
    rw [← mem_remotes, ← linked.same.mem_iff, systems, List.mem_filterMap]
    exact ⟨target, member, owner⟩

/-! ## One step -/

theorem Linked.keep {later : CCluster} (linked : Linked cluster)
    (same : systems later.targets = systems cluster.targets) (nodes : later.nodes = cluster.nodes)
    (fresh : cluster.fresh ≤ later.fresh)
    (idle : ∀ target ∈ later.targets, target.state = .discovered → target.system = none) : Linked later where
  same := by
    rw [same, nodes]
    exact linked.same
  once := by
    rw [same]
    exact linked.once
  older object member := by
    rw [same] at member
    exact Nat.lt_of_lt_of_le (linked.older object member) fresh
  idle := idle

theorem Linked.modify {later : CCluster} {index : Nat} {change : STarget → STarget} (linked : Linked cluster)
    (targets : later.targets = cluster.targets.modify index change) (nodes : later.nodes = cluster.nodes)
    (fresh : cluster.fresh ≤ later.fresh) (same : ∀ target, (change target).system = target.system)
    (state : ∀ target, (change target).state = .discovered → target.state = .discovered) : Linked later := by
  refine linked.keep (by rw [targets, systems_modify same]) nodes fresh ?_
  rw [targets]
  apply forall_modify linked.idle
  intro target member before discovered
  rw [same]
  exact before (state target discovered)

theorem Linked.append {cluster later : CCluster} {target : STarget} (linked : Linked cluster)
    (targets : later.targets = cluster.targets ++ [target]) (nodes : later.nodes = cluster.nodes)
    (fresh : cluster.fresh ≤ later.fresh) (idle : target.system = none) : Linked later := by
  refine linked.keep ?_ nodes fresh ?_
  · rw [targets, systems_append, systems_cons_none idle]
    simp [systems]
  · intro other member discovered
    rw [targets, List.mem_append, List.mem_singleton] at member
    rcases member with old | rfl
    · exact linked.idle other old discovered
    · exact idle

theorem Linked.reported {later : CCluster} (linked : Linked cluster) (reported : Reported cluster later) :
    Linked later := by
  refine linked.keep ?_ reported.nodes (Nat.le_of_eq reported.fresh.symm) ?_
  · have each := reported.targets
    generalize cluster.targets = old at each
    generalize later.targets = new at each
    rw [systems_eq_map, systems_eq_map]
    congr 1
    induction each with
    | nil => rfl
    | cons head tail ih => simp [head.system, ih]
  · intro target member discovered
    obtain ⟨old, found, report⟩ := forall₂_mem_right reported.targets member
    rw [report.system]
    rcases report.state with kept | ⟨-, changed⟩
    · exact linked.idle old found (kept ▸ discovered)
    · rw [discovered] at changed
      simp at changed

theorem Linked.add_target (linked : Linked cluster) (name address : QString) :
    Linked (add_target qt cluster name address) := by
  unfold Cluster.add_target
  cases find_target qt cluster.targets name with
  | some index => exact linked.modify rfl rfl (Nat.le_refl _) (fun _ => rfl) (fun _ => id)
  | none => exact linked.append rfl rfl (Nat.le_succ _) rfl

theorem Linked.update_target (linked : Linked cluster) (oldName newName address : QString) :
    Linked (update_target qt cluster oldName newName address) := by
  unfold Cluster.update_target
  split
  · exact linked
  · split
    · refine linked.modify rfl rfl (Nat.le_refl _) (fun _ => rfl) ?_
      intro target discovered
      simp only [renamed] at discovered
      split_ifs at discovered
      exact discovered
    · exact linked

theorem Linked.disconnect (linked : Linked cluster) (name : QString) : Linked (disconnect qt cluster name) := by
  unfold Cluster.disconnect
  cases found : find_target qt cluster.targets name with
  | none => exact linked
  | some index =>
    simp only
    cases up : (cluster.targets[index]?).bind STarget.system with
    | none => exact linked
    | some gone =>
      obtain ⟨before, target, after, split, rfl, -⟩ := find_target_some found
      simp only
      have owner : target.system = some gone := by
        rw [split] at up
        simpa using up
      have old : systems cluster.targets = systems before ++ gone :: systems after := by
        rw [split, systems_append, systems_cons_some owner]
      have cut : systems (cluster.targets.modify before.length (fun target => { target with system := none, state := .saved })) =
          systems before ++ systems after := by
        rw [split, modify_append, systems_append, systems_cons_none rfl]
      have rotated : (systems cluster.targets).Perm (gone :: (systems before ++ systems after)) := by
        rw [old]
        exact List.perm_middle
      constructor
      · simp only [cut, remotes_erase]
        have trimmed := (rotated.symm.trans linked.same).erase gone
        rwa [List.erase_cons_head] at trimmed
      · simp only [cut]
        exact ((rotated.nodup_iff.mp linked.once)).of_cons
      · intro object member
        simp only [cut] at member
        exact linked.older object (rotated.mem_iff.mpr (List.mem_cons_of_mem _ member))
      · apply forall_modify linked.idle
        intro target member idle discovered
        rfl

theorem Linked.erase_target (linked : Linked cluster) {name : QString}
    (unused : ∀ target ∈ entryOf qt cluster.targets name, target.system = none) :
    Linked (erase_target qt cluster name) := by
  unfold Cluster.erase_target
  cases found : find_target qt cluster.targets name with
  | none => exact linked
  | some index =>
    obtain ⟨before, target, after, split, rfl, entry, -⟩ := find_target_some found
    have idle : target.system = none := unused target entry
    refine linked.keep ?_ rfl (Nat.le_refl _) ?_
    · simp only [split, eraseIdx_append_cons, systems_append, systems_cons_none idle]
    · intro other member discovered
      exact linked.idle other (List.mem_of_mem_eraseIdx member) discovered

theorem Linked.stop_discovery (linked : Linked cluster) : Linked (stop_discovery cluster) := by
  unfold Cluster.stop_discovery
  split
  · refine linked.keep ?_ rfl (Nat.le_refl _) ?_
    · have idle := linked.idle
      simp only
      generalize cluster.targets = targets at idle
      induction targets with
      | nil => rfl
      | cons target rest ih =>
        have later := ih (fun other member => idle other (List.mem_cons_of_mem _ member))
        by_cases discovered : target.state = .discovered
        · rw [systems_cons_none (idle target (by simp) discovered)]
          simpa [discovered] using later
        · rw [List.filter_cons_of_pos (by simpa using discovered)]
          cases owner : target.system with
          | none => rw [systems_cons_none owner, systems_cons_none owner, later]
          | some object => rw [systems_cons_some owner, systems_cons_some owner, later]
    · intro target member discovered
      exact linked.idle target (List.mem_of_mem_filter member) discovered
  · exact linked

theorem Linked.load_targets (linked : Linked cluster) (file : List Record)
    (unused : ∀ target ∈ cluster.targets, target.system = none) : Linked (load_targets cluster file) := by
  refine linked.keep ?_ rfl (Nat.le_add_right _ _) ?_
  · have idle : systems (loaded cluster.fresh file) = [] :=
      systems_idle (fun target member => (loaded_new file cluster.fresh target member).2)
    exact idle.trans (systems_idle unused).symm
  · intro target member _
    exact (loaded_new file cluster.fresh target member).2

theorem Linked.begin_connect (linked : Linked cluster) (one : Connecting) : Linked (begin_connect qt cluster one) := by
  unfold Cluster.begin_connect
  split
  · exact { linked with }
  · split
    · exact { linked with }
    · refine linked.modify rfl rfl (Nat.le_refl _) (fun _ => rfl) ?_
      intro target discovered
      cases discovered

theorem Linked.finish_connect (linked : Linked cluster) (one : Connecting) (result : Except Nat QString)
    (unused : ∀ machineId, result = .ok machineId → ∀ target ∈ entryOf qt cluster.targets one.name, target.system = none)
    : Linked (finish_connect qt cluster one result) := by
  unfold Cluster.finish_connect
  split
  · exact { linked with }
  · exact { linked with }
  · refine linked.modify rfl rfl (Nat.le_refl _) (fun _ => rfl) ?_
    intro target discovered
    cases discovered
  · rename_i index machineId found
    obtain ⟨before, target, after, split, rfl, entry, -⟩ := find_target_some found
    have idle : target.system = none := unused machineId rfl target entry
    have old : systems cluster.targets = systems before ++ systems after := by
      rw [split, systems_append, systems_cons_none idle]
    generalize made : Remote.mk cluster.fresh one.address machineId machineId = object
    have number : object.pointer = cluster.fresh := by rw [← made]
    have unknown : object ∉ systems cluster.targets := by
      intro member
      have smaller := linked.older object member
      omega
    have absent : .remote object ∉ cluster.nodes := by
      intro member
      exact unknown (linked.same.mem_iff.mpr (mem_remotes.mpr member))
    have new : systems (cluster.targets.modify before.length (credited object)) =
        systems before ++ object :: systems after := by
      rw [split, modify_append, systems_append, systems_cons_some rfl]
    have rotated : (systems before ++ object :: systems after).Perm (object :: systems cluster.targets) := by
      rw [old]
      exact List.perm_middle
    constructor
    · simp only [answer, new, absent, if_false]
      have grown : remotes (cluster.nodes ++ [.remote object]) = remotes cluster.nodes ++ [object] := by
        simp [remotes]
      rw [grown]
      refine rotated.trans ((linked.same.cons object).trans ?_)
      exact (List.perm_append_singleton object (remotes cluster.nodes)).symm
    · simp only [answer, new]
      rw [rotated.nodup_iff]
      exact List.nodup_cons.mpr ⟨unknown, linked.once⟩
    · intro other member
      simp only [answer, new] at member ⊢
      rcases List.mem_cons.mp (rotated.mem_iff.mp member) with rfl | earlier
      · omega
      · have smaller := linked.older other earlier
        omega
    · apply forall_modify linked.idle
      intro target member before discovered
      cases discovered

theorem Linked.step {later : CCluster} {action : Action} (linked : Linked cluster)
    (meets : Undisputed qt cluster action) (moved : step qt cluster action = some later) : Linked later := by
  cases step_took moved with
  | quiet reported => exact linked.reported reported
  | addTarget name address => exact linked.add_target name address
  | updateTarget oldName newName address => exact linked.update_target oldName newName address
  | disconnect name => exact linked.disconnect name
  | removeTarget removes =>
    exact (linked.disconnect _).keep rfl rfl (by rw [disconnect_fresh]; exact Nat.le_succ _) (linked.disconnect _).idle
  | eraseTarget pending removes =>
    exact { linked.erase_target (meets _ pending) with }
  | onDiscovered address hostName machineId =>
    unfold on_discovered
    split
    · exact linked
    · exact linked.append rfl rfl (Nat.le_succ _) rfl
  | stopDiscovery => exact linked.stop_discovery
  | loadTargets file => exact linked.load_targets file meets
  | connect name address identity takeView =>
    have added : Linked (Cluster.add_target qt cluster name address) := linked.add_target name address
    exact added.keep rfl rfl (Nat.le_succ _) added.idle
  | beginConnect pending stage => exact linked.begin_connect _
  | readExpected pending stage => exact { linked with }
  | noRemote pending stage available => exact { linked with }
  | finishConnect pending stage accepted =>
    apply linked.finish_connect
    rintro machineId rfl
    exact meets _ pending

/-! ## Every run -/

theorem linked_initial : Linked {} := by
  refine ⟨List.Perm.refl _, List.nodup_nil, ?_, ?_⟩
  · intro object member
    cases member
  · intro target member
    cases member

/-- Every machine in the tree can be found through one entry. -/
theorem every_node_owned {cluster : CCluster} (run : Run (step qt) (Undisputed qt) {} cluster) : Owned cluster := by
  apply Linked.owned
  apply run.invariant Linked linked_initial
  exact Linked.step

/-- One machine is connected, and another is dropped and its entry removed. -/
def connectedRun : List Action :=
  [.connect ['b', 'o', 'x'] ['a', ':', '1'] .requireSaved true, .beginConnect 1, .readExpected 1,
    .finishConnect 1 (.ok ['7']), .connect ['p', 'c'] ['b', ':', '1'] .requireSaved false, .beginConnect 4,
    .readExpected 4, .finishConnect 4 (.ok ['8']), .removeTarget ['P', 'C'], .eraseTarget 6]

theorem every_node_owned_connected :
    ∃ cluster, runs (step asciiQt) {} connectedRun = some cluster ∧
      cluster.nodes = [.theSystem, .remote ⟨2, ['a', ':', '1'], ['7'], ['7']⟩] ∧ Owned cluster := by
  have meets : Meets (step asciiQt) (Undisputed asciiQt) {} connectedRun := by decide
  exact ⟨_, rfl, rfl, every_node_owned (Run.of_runs .start meets rfl)⟩

/-- Two calls for one name, both past the check when the first of them answers. -/
def overlappingRun : List Action :=
  [.connect ['b', 'o', 'x'] ['a', ':', '1'] .requireSaved true, .connect ['b', 'o', 'x'] ['a', ':', '1'] .requireSaved false,
    .beginConnect 1, .beginConnect 2, .readExpected 1, .readExpected 2, .finishConnect 1 (.ok ['7']),
    .finishConnect 2 (.ok ['7'])]

theorem node_orphaned : ¬ ∀ cluster, Run (step asciiQt) Always {} cluster → Owned cluster := by
  intro owned
  have meets : Meets (step asciiQt) Always {} overlappingRun := meets_always _ _
  have last := owned _ (Run.of_runs .start meets rfl)
  have one := last.one ⟨3, ['a', ':', '1'], ['7'], ['7']⟩ (by decide)
  revert one
  decide

end TaskExplorer.ClusterNodes
