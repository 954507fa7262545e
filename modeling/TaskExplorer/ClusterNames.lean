import TaskExplorer.Cluster

/-!
# Names of targets

A name is the key everything else finds an entry by. Entries that a user adds or
renames are checked against it; announcements and the file are not.
-/

namespace TaskExplorer.ClusterNames
open ListEdits Transition Cluster

variable {qt : Qt}

/-- No two entries have names that are equal ignoring case. -/
def Distinct (qt : Qt) (targets : List STarget) : Prop :=
  targets.Pairwise (fun first second => ¬ qt.Same first.name second.name)

/-- The records of a file that `LoadTargets` keeps have distinct names. -/
def FileDistinct (qt : Qt) (file : List Record) : Prop :=
  (file.filter (fun record => record.name ≠ [])).Pairwise (fun first second => ¬ qt.Same first.name second.name)

/-- The two ways in which a name comes in unchecked bring a new one. -/
def Unambiguous (qt : Qt) (cluster : CCluster) : Action → Prop
  | .onDiscovered address hostName machineId =>
    cluster.targets.any (knows address machineId) = true ∨
      ∀ target ∈ cluster.targets, ¬ qt.Same target.name (announced qt address hostName)
  | .loadTargets file => FileDistinct qt file
  | _ => True

instance (qt : Qt) (targets : List STarget) : Decidable (Distinct qt targets) :=
  inferInstanceAs (Decidable (targets.Pairwise _))

instance (qt : Qt) (file : List Record) : Decidable (FileDistinct qt file) :=
  inferInstanceAs (Decidable (List.Pairwise _ _))

instance (qt : Qt) (cluster : CCluster) : ∀ action, Decidable (Unambiguous qt cluster action)
  | .onDiscovered .. => inferInstanceAs (Decidable (_ ∨ ∀ target ∈ cluster.targets, _))
  | .loadTargets file => inferInstanceAs (Decidable (FileDistinct qt file))
  | .addTarget .. | .updateTarget .. | .disconnect .. | .removeTarget .. | .eraseTarget .. | .startDiscovery
  | .stopDiscovery | .connect .. | .beginConnect .. | .readExpected .. | .noRemote .. | .finishConnect ..
  | .connectionLost .. | .reconnectRefused .. | .reconnected .. | .retryLostNodes .. | .markLocalDaemon ..
  | .setViewSystem .. | .setGraphSystem .. | .setClusterMode .. => isTrue trivial

/-! ## One step -/

theorem distinct_map {left right : List STarget} (same : left.map STarget.name = right.map STarget.name)
    (distinct : Distinct qt right) : Distinct qt left := by
  have names : (right.map STarget.name).Pairwise (fun first second => ¬ qt.Same first second) :=
    List.pairwise_map.mpr distinct
  rw [← same] at names
  exact List.pairwise_map.mp names

theorem distinct_modify {targets : List STarget} {index : Nat} {change : STarget → STarget}
    (same : ∀ target, (change target).name = target.name) (distinct : Distinct qt targets) :
    Distinct qt (targets.modify index change) :=
  distinct_map (map_modify_same same) distinct

theorem distinct_append {targets : List STarget} {target : STarget} (distinct : Distinct qt targets)
    (new : ∀ other ∈ targets, ¬ qt.Same other.name target.name) : Distinct qt (targets ++ [target]) := by
  rw [Distinct, List.pairwise_append]
  refine ⟨distinct, List.pairwise_singleton _ _, ?_⟩
  intro other member last found
  rw [List.mem_singleton.mp found]
  exact new other member

variable {cluster : CCluster}

theorem distinct_add_target (name address : QString) (distinct : Distinct qt cluster.targets) :
    Distinct qt (add_target qt cluster name address).targets := by
  unfold add_target
  cases found : find_target qt cluster.targets name with
  | some index => exact distinct_modify (fun _ => rfl) distinct
  | none => exact distinct_append distinct (find_target_none found)

theorem distinct_update_target (oldName newName address : QString) (distinct : Distinct qt cluster.targets) :
    Distinct qt (update_target qt cluster oldName newName address).targets := by
  unfold update_target
  cases found : find_target qt cluster.targets oldName with
  | none => exact distinct
  | some index =>
    simp only
    split
    · rename_i permitted
      obtain ⟨before, target, after, split, rfl, -, named, -⟩ := find_target_some found
      simp only [split, modify_append]
      rw [split, Distinct, List.pairwise_append, List.pairwise_cons] at distinct
      obtain ⟨front, ⟨behind, back⟩, across⟩ := distinct
      have free : ∀ other, other ∈ before ∨ other ∈ after → ¬ qt.Same other.name newName := by
        intro other member
        rcases permitted with same | unused
        · have kept : qt.Same newName target.name := same.trans named.symm
          rcases member with earlier | later
          · exact fun clash => across other earlier target (by simp) (clash.trans kept)
          · exact fun clash => behind other later (kept.symm.trans clash.symm)
        · have all := List.all_eq_true.mp unused
          rw [split, eraseIdx_append_cons] at all
          have unlike := all other (List.mem_append.mpr member)
          simpa using unlike
      rw [Distinct, List.pairwise_append, List.pairwise_cons]
      refine ⟨front, ⟨?_, back⟩, ?_⟩
      · intro other later clash
        exact free other (.inr later) clash.symm
      · intro other earlier second member
        rcases List.mem_cons.mp member with rfl | later
        · exact free other (.inl earlier)
        · exact across other earlier second (List.mem_cons_of_mem _ later)
    · exact distinct

theorem distinct_disconnect (name : QString) (distinct : Distinct qt cluster.targets) :
    Distinct qt (disconnect qt cluster name).targets := by
  unfold disconnect
  split
  · exact distinct
  · split
    · exact distinct
    · exact distinct_modify (fun _ => rfl) distinct

theorem distinct_loaded {file : List Record} (distinct : FileDistinct qt file) (fresh : Nat) :
    Distinct qt (loaded fresh file) := by
  have names (fresh : Nat) : (loaded fresh file).map STarget.name =
      (file.filter (fun record => record.name ≠ [])).map Record.name := by
    induction file generalizing fresh with
    | nil => rfl
    | cons record rest ih =>
      have tail : FileDistinct qt rest := by
        refine distinct.sublist (List.Sublist.filter _ ?_)
        exact List.sublist_cons_self record rest
      by_cases empty : record.name = []
      · simp [loaded, empty, ih tail]
      · simp [loaded, empty, ih tail]
  have kept : ((file.filter (fun record => record.name ≠ [])).map Record.name).Pairwise
      (fun first second => ¬ qt.Same first second) := List.pairwise_map.mpr distinct
  rw [← names fresh] at kept
  exact List.pairwise_map.mp kept

theorem distinct_finish_connect (one : Connecting) (result : Except Nat QString)
    (distinct : Distinct qt cluster.targets) : Distinct qt (finish_connect qt cluster one result).targets := by
  unfold finish_connect
  split
  · exact distinct
  · exact distinct
  · exact distinct_modify (fun _ => rfl) distinct
  · exact distinct_modify (fun _ => rfl) distinct

theorem distinct_begin_connect (one : Connecting) (distinct : Distinct qt cluster.targets) :
    Distinct qt (begin_connect qt cluster one).targets := by
  unfold begin_connect
  split
  · exact distinct
  · split
    · exact distinct
    · exact distinct_modify (fun _ => rfl) distinct

theorem distinct_reported {later : CCluster} (reported : Reported cluster later)
    (distinct : Distinct qt cluster.targets) : Distinct qt later.targets := by
  refine distinct_map ?_ distinct
  have each := reported.targets
  generalize cluster.targets = old at each
  generalize later.targets = new at each
  induction each with
  | nil => rfl
  | cons head tail ih => simp [head.name, ih]

theorem distinct_step {later : CCluster} {action : Action} (distinct : Distinct qt cluster.targets)
    (meets : Unambiguous qt cluster action) (moved : step qt cluster action = some later) :
    Distinct qt later.targets := by
  cases step_took moved with
  | quiet reported => exact distinct_reported reported distinct
  | addTarget name address => exact distinct_add_target name address distinct
  | updateTarget oldName newName address => exact distinct_update_target oldName newName address distinct
  | disconnect name => exact distinct_disconnect name distinct
  | removeTarget removes => exact distinct_disconnect _ distinct
  | eraseTarget pending removes =>
    simp only [erase_target]
    split
    · exact distinct
    · exact distinct.sublist (List.eraseIdx_sublist _ _)
  | onDiscovered address hostName machineId =>
    unfold on_discovered
    split
    · exact distinct
    · rename_i unknown
      rcases meets with known | new
      · exact absurd known unknown
      · exact distinct_append distinct new
  | stopDiscovery =>
    unfold stop_discovery
    split
    · exact distinct.sublist List.filter_sublist
    · exact distinct
  | loadTargets file => exact distinct_loaded meets cluster.fresh
  | connect name address identity takeView => exact distinct_add_target name address distinct
  | beginConnect pending stage => exact distinct_begin_connect _ distinct
  | readExpected pending stage => exact distinct
  | noRemote pending stage available => exact distinct
  | finishConnect pending stage accepted => exact distinct_finish_connect _ _ distinct

/-! ## Every run -/

/-- What `StoreTargets` writes has distinct names if the entries have. -/
theorem fileDistinct_store_targets {targets : List STarget} (distinct : Distinct qt targets) :
    FileDistinct qt (store_targets targets) := by
  have records : (store_targets targets).Pairwise (fun first second => ¬ qt.Same first.name second.name) := by
    rw [store_targets, List.pairwise_map]
    exact distinct.sublist List.filter_sublist
  exact records.sublist List.filter_sublist

/-- A machine is added, another announces itself, and the first is renamed. -/
def announcedRun : List Action :=
  [.addTarget ['b', 'o', 'x'] ['a', ':', '1'], .onDiscovered ['b', ':', '2'] ['h'] ['7'],
    .updateTarget ['B', 'O', 'X'] ['P', 'C'] ['a', ':', '1']]

end TaskExplorer.ClusterNames
