import TaskExplorer.Cluster

/-!
# Which machine an entry is connected to

The id and the address of an entry say which machine it stands for. The id is
written together with the system it came from. The address is not: it is what
the next connection uses, and may be corrected while one is up.
-/

namespace TaskExplorer.ClusterIdentity
open ListEdits Transition Cluster

variable {qt : Qt}

/-- The id of a connected entry is the one its machine presented. -/
def Identified (target : STarget) : Prop := ∀ object, target.system = some object → target.machineId = object.machineId

/-- The machine of a connected entry was reached at the entry's address. -/
def Addressed (target : STarget) : Prop := ∀ object, target.system = some object → object.address = target.address

/-- Nobody gives a connected entry another address, and a handshake that
    succeeds finds the address it dialled in the entry it is credited to. -/
def Undisturbed (qt : Qt) (cluster : CCluster) : Action → Prop
  | .addTarget name address => ∀ target ∈ entryOf qt cluster.targets name, target.system ≠ none → target.address = address
  | .connect name address _ _ => ∀ target ∈ entryOf qt cluster.targets name, target.system ≠ none → target.address = address
  | .updateTarget oldName _ address =>
    ∀ target ∈ entryOf qt cluster.targets oldName, target.system ≠ none → target.address = address
  | .finishConnect call (.ok _) =>
    ∀ one ∈ findCall cluster call, ∀ target ∈ entryOf qt cluster.targets one.name, target.address = one.address
  | _ => True

instance (qt : Qt) (cluster : CCluster) : ∀ action, Decidable (Undisturbed qt cluster action)
  | .addTarget name _ => inferInstanceAs (Decidable (∀ target ∈ entryOf qt cluster.targets name, _))
  | .connect name _ _ _ => inferInstanceAs (Decidable (∀ target ∈ entryOf qt cluster.targets name, _))
  | .updateTarget oldName _ _ => inferInstanceAs (Decidable (∀ target ∈ entryOf qt cluster.targets oldName, _))
  | .finishConnect call (.ok _) => inferInstanceAs (Decidable (∀ one ∈ findCall cluster call, _))
  | .disconnect .. | .removeTarget .. | .eraseTarget .. | .onDiscovered .. | .startDiscovery
  | .stopDiscovery | .loadTargets .. | .beginConnect .. | .readExpected .. | .noRemote .. | .finishConnect _ (.error _)
  | .connectionLost .. | .reconnectRefused .. | .reconnected .. | .retryLostNodes .. | .markLocalDaemon ..
  | .setViewSystem .. | .setGraphSystem .. | .setClusterMode .. => isTrue trivial

/-- The sections that belong to a `Connect`. -/
def Action.ofConnect : Action → Bool
  | .connect .. | .beginConnect .. | .readExpected .. | .noRemote .. | .finishConnect .. => true
  | _ => false

/-- The entry that a handshake is credited to has the id that the call read
    before it. -/
def StillExpected (qt : Qt) (cluster : CCluster) : Action → Prop
  | .finishConnect call (.ok _) =>
    ∀ one ∈ findCall cluster call, ∀ expected, one.stage = .expecting expected →
      ∀ target ∈ entryOf qt cluster.targets one.name, target.machineId = expected
  | _ => True

/-! ## One step -/

variable {cluster : CCluster}

/-- What holds of every entry after a step, if it holds of every entry before it
    and of what the step makes of the entries it touches. -/
theorem targets_step {later : CCluster} {action : Action} {holds : STarget → Prop}
    (each : ∀ target ∈ cluster.targets, holds target) (moved : step qt cluster action = some later)
    (idle : ∀ target, target.system = none → holds target)
    (report : ∀ target other, Report target other → holds target → holds other)
    (marked : ∀ target caller, holds target → holds { target with state := .connecting, caller := caller })
    (failed : ∀ target code, holds target → holds { target with state := .failed, lastError := code })
    (readdressed : ∀ name address identity takeView, action = .addTarget name address ∨ action = .connect name address identity takeView → ∀ target ∈ entryOf qt cluster.targets name, holds target → holds { target with address := address })
    (updated : ∀ oldName newName address, action = .updateTarget oldName newName address → ∀ target ∈ entryOf qt cluster.targets oldName, holds target → holds (renamed newName address target))
    (installed : ∀ call machineId one, action = .finishConnect call (.ok machineId) → findCall cluster call = some one → ∀ target ∈ entryOf qt cluster.targets one.name, holds (credited ⟨cluster.fresh, one.address, machineId, machineId⟩ target))
    :
    ∀ target ∈ later.targets, holds target := by
  -- an entry found by name is the only one that changes
  have edit {name : QString} {index : Nat} {change : STarget → STarget} (found : find_target qt cluster.targets name = some index)
      (changed : ∀ target ∈ entryOf qt cluster.targets name, holds target → holds (change target)) :
      ∀ target ∈ cluster.targets.modify index change, holds target := by
    obtain ⟨before, target, after, split, rfl, entry, -⟩ := find_target_some found
    intro other member
    simp only [split, modify_append, List.mem_append, List.mem_cons] at member
    rcases member with earlier | rfl | behind
    · exact each other (by simp [split, earlier])
    · exact changed target entry (each target (by simp [split]))
    · exact each other (by simp [split, behind])
  have grown {target : STarget} (new : target.system = none) : ∀ other ∈ cluster.targets ++ [target], holds other := by
    intro other member
    rcases List.mem_append.mp member with old | last
    · exact each other old
    · rw [List.mem_singleton.mp last]
      exact idle target new
  have cut (name : QString) : ∀ target ∈ (disconnect qt cluster name).targets, holds target := by
    unfold disconnect
    cases found : find_target qt cluster.targets name with
    | none => exact each
    | some index =>
      simp only
      split
      · exact each
      · exact edit found (fun target _ _ => idle _ rfl)
  have added {name address : QString} (changed : ∀ target ∈ entryOf qt cluster.targets name, holds target →
      holds { target with address := address }) : ∀ target ∈ (add_target qt cluster name address).targets, holds target := by
    unfold add_target
    cases found : find_target qt cluster.targets name with
    | some index => exact edit found changed
    | none => exact grown rfl
  cases step_took moved with
  | quiet reported =>
    intro target member
    obtain ⟨old, found, same⟩ := forall₂_mem_right reported.targets member
    exact report old target same (each old found)
  | addTarget name address => exact added (readdressed name address .requireSaved false (.inl rfl))
  | updateTarget oldName newName address =>
    unfold update_target
    cases found : find_target qt cluster.targets oldName with
    | none => exact each
    | some index =>
      simp only
      split
      · exact edit found (updated oldName newName address rfl)
      · exact each
  | disconnect name => exact cut name
  | removeTarget removes => exact cut _
  | eraseTarget found removes =>
    unfold erase_target
    split
    · exact each
    · exact fun target member => each target (List.mem_of_mem_eraseIdx member)
  | onDiscovered address hostName machineId =>
    unfold on_discovered
    split
    · exact each
    · exact grown rfl
  | stopDiscovery =>
    unfold stop_discovery
    split
    · exact fun target member => each target (List.mem_of_mem_filter member)
    · exact each
  | loadTargets file => exact fun target member => idle target (loaded_new file cluster.fresh target member).2
  | connect name address identity takeView => exact added (readdressed name address identity takeView (.inr rfl))
  | beginConnect found stage =>
    unfold begin_connect
    split
    · exact each
    · rename_i index named
      split
      · exact each
      · exact edit named (fun target _ => marked target _)
  | readExpected found stage => exact each
  | noRemote found stage available => exact each
  | finishConnect found stage accepted =>
    unfold finish_connect
    split
    · exact each
    · exact each
    · rename_i index code named
      exact edit named (fun target _ => failed target code)
    · rename_i index machineId named
      exact edit named (fun target entry _ => installed _ machineId _ rfl found target entry)

theorem identified_step {later : CCluster} {action : Action} (each : ∀ target ∈ cluster.targets, Identified target)
    (moved : step qt cluster action = some later) : ∀ target ∈ later.targets, Identified target := by
  apply targets_step each moved
  · intro target idle object owner
    simp [idle] at owner
  · intro target other report identified object owner
    rw [report.system] at owner
    rw [report.machineId]
    exact identified object owner
  · exact fun target caller identified => identified
  · exact fun target code identified => identified
  · exact fun name address identity takeView _ target _ identified => identified
  · exact fun oldName newName address _ target _ identified => identified
  · intro call machineId one _ _ target _ object owner
    cases owner
    rfl

theorem addressed_step {later : CCluster} {action : Action} (each : ∀ target ∈ cluster.targets, Addressed target)
    (meets : Undisturbed qt cluster action) (moved : step qt cluster action = some later) :
    ∀ target ∈ later.targets, Addressed target := by
  apply targets_step each moved
  · intro target idle object owner
    simp [idle] at owner
  · intro target other report addressed object owner
    rw [report.system] at owner
    rw [report.address]
    exact addressed object owner
  · exact fun target caller addressed => addressed
  · exact fun target code addressed => addressed
  · intro name address identity takeView kind target entry addressed object owner
    have up : target.system ≠ none := by simp [show target.system = some object from owner]
    have same : target.address = address := by
      rcases kind with rfl | rfl
      · exact meets target entry up
      · exact meets target entry up
    exact (addressed object owner).trans same
  · rintro oldName newName address rfl target entry addressed object owner
    have up : target.system ≠ none := by simp [show target.system = some object from owner]
    exact (addressed object owner).trans (meets target entry up)
  · rintro call machineId one rfl found target entry object owner
    cases owner
    exact (meets one found target entry).symm

/-- Only the last section of a `Connect` writes an id, and it writes the one the
    call expected if it expected any. -/
theorem machineId_kept {later : CCluster} {action : Action} (kind : Action.ofConnect action = true)
    (moved : step qt cluster action = some later) (meets : StillExpected qt cluster action) {index : Nat}
    {target : STarget} (here : cluster.targets[index]? = some target) (known : target.machineId ≠ []) :
    ∃ after, later.targets[index]? = some after ∧ after.machineId = target.machineId := by
  have kept {place : Nat} {change : STarget → STarget} (same : ∀ target, (change target).machineId = target.machineId) :
      ∃ after, (cluster.targets.modify place change)[index]? = some after ∧ after.machineId = target.machineId := by
    rw [List.getElem?_modify, here]
    by_cases hit : place = index
    · exact ⟨change target, by simp [hit], same target⟩
    · exact ⟨target, by simp [hit], rfl⟩
  cases step_took moved with
  | quiet reported =>
    obtain ⟨after, found, report⟩ := forall₂_getElem? reported.targets here
    exact ⟨after, found, report.machineId⟩
  | addTarget name address => cases kind
  | updateTarget oldName newName address => cases kind
  | disconnect name => cases kind
  | removeTarget removes => cases kind
  | eraseTarget found removes => cases kind
  | onDiscovered address hostName machineId => cases kind
  | stopDiscovery => cases kind
  | loadTargets file => cases kind
  | connect name address identity takeView =>
    simp only [connect, add_target]
    split
    · exact kept (fun _ => rfl)
    · refine ⟨target, ?_, rfl⟩
      obtain ⟨bound, -⟩ := List.getElem?_eq_some_iff.mp here
      rw [List.getElem?_append_left bound, here]
  | beginConnect found stage =>
    unfold begin_connect
    split
    · exact ⟨target, here, rfl⟩
    · split
      · exact ⟨target, here, rfl⟩
      · exact kept (fun _ => rfl)
  | readExpected found stage => exact ⟨target, here, rfl⟩
  | noRemote found stage available => exact ⟨target, here, rfl⟩
  | finishConnect found stage accepted =>
    rename_i call one expected result
    unfold finish_connect
    split
    · exact ⟨target, here, rfl⟩
    · exact ⟨target, here, rfl⟩
    · exact kept (fun _ => rfl)
    · rename_i place machineId named
      obtain ⟨before, entry, behind, split, rfl, owned, -⟩ := find_target_some named
      have read : entry.machineId = expected := meets one found expected stage entry owned
      simp only [answer]
      rw [List.getElem?_modify, here]
      by_cases hit : before.length = index
      · subst hit
        have same : target = entry := by
          rw [split] at here
          simpa using here.symm
        subst same
        refine ⟨credited ⟨cluster.fresh, one.address, machineId, machineId⟩ target, by simp, ?_⟩
        rcases accepted with unknown | equal
        · rw [read] at known
          exact absurd unknown known
        · rw [read]
          exact equal
      · exact ⟨target, by simp [hit], rfl⟩

/-! ## Every run -/

/-- In every run the id of a connected entry is the one its machine presented,
    and a `Connect` that finds the id it read before replaces none; where no
    address is corrected under a connection, the machine was reached at the
    entry's address. -/
theorem handshake_credited {cluster : CCluster} (run : Run (step qt) Always {} cluster) :
    (∀ target ∈ cluster.targets, Identified target) ∧
      (Run (step qt) (Undisturbed qt) {} cluster → ∀ target ∈ cluster.targets, Addressed target) ∧
      ∀ action later, Action.ofConnect action = true → step qt cluster action = some later →
        StillExpected qt cluster action → ∀ (index : Nat) target, cluster.targets[index]? = some target →
          target.machineId ≠ [] → ∃ after, later.targets[index]? = some after ∧ after.machineId = target.machineId := by
  refine ⟨?_, ?_, ?_⟩
  · apply run.invariant (fun cluster => ∀ target ∈ cluster.targets, Identified target)
    · intro target member
      cases member
    · exact fun each _ moved => identified_step each moved
  · intro quiet
    apply quiet.invariant (fun cluster => ∀ target ∈ cluster.targets, Addressed target)
    · intro target member
      cases member
    · exact addressed_step
  · intro action later kind moved meets index target here known
    exact machineId_kept kind moved meets here known

/-- One machine is connected, and another is being connected for the second time. -/
def againRun : List Action :=
  [.connect ['b', 'o', 'x'] ['a', ':', '1'] .requireSaved true, .beginConnect 1, .readExpected 1,
    .finishConnect 1 (.ok ['7']), .connect ['p', 'c'] ['b', ':', '1'] .requireSaved true, .beginConnect 4, .readExpected 4,
    .finishConnect 4 (.ok ['8']), .disconnect ['p', 'c'], .connect ['p', 'c'] ['b', ':', '1'] .requireSaved true,
    .beginConnect 6, .readExpected 6]

theorem handshake_credited_again :
    ∃ cluster later, runs (step asciiQt) {} againRun = some cluster ∧
      cluster.targets.map STarget.system = [some ⟨2, ['a', ':', '1'], ['7'], ['7']⟩, none] ∧
      (∀ target ∈ cluster.targets, Identified target) ∧ (∀ target ∈ cluster.targets, Addressed target) ∧
      step asciiQt cluster (.finishConnect 6 (.ok ['8'])) = some later ∧
      ∃ after, later.targets[1]? = some after ∧ after.machineId = ['8'] := by
  have meets : Meets (step asciiQt) Always {} againRun := meets_always _ _
  have quiet : Meets (step asciiQt) (Undisturbed asciiQt) {} againRun := by decide
  have credited := handshake_credited (Run.of_runs .start meets rfl)
  refine ⟨_, _, rfl, rfl, credited.1, credited.2.1 (Run.of_runs .start quiet rfl), rfl, ?_⟩
  refine credited.2.2 (.finishConnect 6 (.ok ['8'])) _ rfl rfl ?_ 1 _ rfl (by decide)
  rintro one found expected stage target entry
  cases found
  cases stage
  cases entry
  rfl

/-- The address of a connected entry is corrected. -/
def correctedRun : List Action :=
  [.connect ['b', 'o', 'x'] ['a', ':', '1'] .requireSaved true, .beginConnect 1, .readExpected 1,
    .finishConnect 1 (.ok ['7']), .updateTarget ['b', 'o', 'x'] ['b', 'o', 'x'] ['b', ':', '2']]

theorem address_corrected :
    ¬ ∀ cluster, Run (step asciiQt) Always {} cluster →
      ∀ target ∈ cluster.targets, Addressed target ∧ Identified target := by
  intro credited
  have meets : Meets (step asciiQt) Always {} correctedRun := meets_always _ _
  have last := (credited _ (Run.of_runs .start meets rfl) _ (List.mem_singleton.mpr rfl)).1
  have same := last ⟨2, ['a', ':', '1'], ['7'], ['7']⟩ rfl
  revert same
  decide

end TaskExplorer.ClusterIdentity
