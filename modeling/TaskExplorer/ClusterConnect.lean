import TaskExplorer.Cluster

/-!
# Connecting

A `Connect` gives up the lock for the whole handshake and looks its entry up
again by name. What it left behind in the entry, and what it puts there, depends
on nobody having changed the entry meanwhile.
-/

namespace TaskExplorer.ClusterConnect
open ListEdits Transition Cluster

variable {qt : Qt}

/-! ## Calls under way -/

variable {cluster : CCluster} {one : Connecting}

theorem findCall_some {call : Nat} (found : findCall cluster call = some one) :
    one ∈ cluster.connects ∧ one.call = call := by
  refine ⟨List.mem_of_find?_eq_some found, ?_⟩
  simpa using List.find?_some found

/-- Entries in the connecting state are those of calls that have not returned,
    and are what the name of that call finds. -/
structure Pending (qt : Qt) (cluster : CCluster) : Prop where
  older : ∀ one ∈ cluster.connects, one.call < cluster.fresh
  unique : (cluster.connects.map Connecting.call).Nodup
  returned : ∀ answer ∈ cluster.answers, answer.call < cluster.fresh ∧ ∀ one ∈ cluster.connects, one.call ≠ answer.call
  waiting : ∀ target ∈ cluster.targets, target.state = .connecting →
    ∃ one ∈ cluster.connects, one.stage ≠ .added ∧ target.caller = some one.call ∧ qt.Same target.name one.name
  first : cluster.targets.Pairwise (fun first second => second.state = .connecting → ¬ qt.Same first.name second.name)

theorem Pending.finds (pending : Pending qt cluster) {target : STarget} {name : QString}
    (member : target ∈ cluster.targets) (connecting : target.state = .connecting) (named : qt.Same target.name name) :
    entryOf qt cluster.targets name = some target := by
  cases found : find_target qt cluster.targets name with
  | none => exact absurd named (find_target_none found target member)
  | some index =>
    obtain ⟨before, other, after, split, rfl, entry, otherNamed, passed⟩ := find_target_some found
    rw [entry]
    have pairs := pending.first
    rw [split, List.pairwise_append, List.pairwise_cons] at pairs
    rw [split, List.mem_append, List.mem_cons] at member
    rcases member with earlier | rfl | later
    · exact absurd named (passed target earlier)
    · rfl
    · exact absurd (otherNamed.trans named.symm) (pairs.2.1.1 target later connecting)

/-! ### Steps that leave the calls alone -/

variable {later : CCluster}

theorem Pending.keep (pending : Pending qt cluster) (connects : later.connects = cluster.connects)
    (answers : later.answers = cluster.answers) (fresh : cluster.fresh ≤ later.fresh)
    (waiting : ∀ target ∈ later.targets, target.state = .connecting → ∃ old ∈ cluster.targets, old.state = .connecting ∧ target.caller = old.caller ∧ qt.Same target.name old.name)
    (first : later.targets.Pairwise (fun first second => second.state = .connecting → ¬ qt.Same first.name second.name))
    :
    Pending qt later where
  older one member := by
    rw [connects] at member
    exact Nat.lt_of_lt_of_le (pending.older one member) fresh
  unique := by
    rw [connects]
    exact pending.unique
  returned answer member := by
    rw [answers] at member
    obtain ⟨smaller, gone⟩ := pending.returned answer member
    refine ⟨Nat.lt_of_lt_of_le smaller fresh, ?_⟩
    rw [connects]
    exact gone
  waiting target member connecting := by
    obtain ⟨old, oldMember, oldState, caller, named⟩ := waiting target member connecting
    obtain ⟨one, oneMember, stage, owner, oneNamed⟩ := pending.waiting old oldMember oldState
    rw [connects]
    exact ⟨one, oneMember, stage, caller.trans owner, named.trans oneNamed⟩
  first := first

theorem Pending.modify {index : Nat} {change : STarget → STarget} (pending : Pending qt cluster)
    (targets : later.targets = cluster.targets.modify index change) (connects : later.connects = cluster.connects)
    (answers : later.answers = cluster.answers) (fresh : cluster.fresh ≤ later.fresh)
    (name : ∀ target, (change target).name = target.name) (caller : ∀ target, (change target).caller = target.caller)
    (state : ∀ target, (change target).state = .connecting → target.state = .connecting) : Pending qt later := by
  apply pending.keep connects answers fresh
  · rw [targets]
    have each : ∀ target ∈ cluster.targets, target.state = .connecting → ∃ old ∈ cluster.targets, old.state = .connecting ∧
        target.caller = old.caller ∧ qt.Same target.name old.name :=
      fun target member connecting => ⟨target, member, connecting, rfl, rfl⟩
    apply forall_modify each
    intro target member _ connecting
    refine ⟨target, member, state target connecting, caller target, ?_⟩
    rw [name]
    rfl
  · rw [targets]
    apply pairwise_modify _ _ pending.first
    · intro one other unlike connecting
      rw [name]
      exact unlike connecting
    · intro one other unlike connecting
      rw [name]
      exact unlike (state other connecting)

theorem Pending.append {cluster later : CCluster} {target : STarget} (pending : Pending qt cluster)
    (targets : later.targets = cluster.targets ++ [target]) (connects : later.connects = cluster.connects)
    (answers : later.answers = cluster.answers) (fresh : cluster.fresh ≤ later.fresh) (state : target.state ≠ .connecting) :
    Pending qt later := by
  apply pending.keep connects answers fresh
  · intro other member connecting
    rw [targets, List.mem_append, List.mem_singleton] at member
    rcases member with old | rfl
    · exact ⟨other, old, connecting, rfl, rfl⟩
    · exact absurd connecting state
  · rw [targets, List.pairwise_append]
    refine ⟨pending.first, List.pairwise_singleton _ _, ?_⟩
    intro one _ other last connecting
    rw [List.mem_singleton.mp last] at connecting
    exact absurd connecting state

theorem Pending.sublist (pending : Pending qt cluster) (fewer : later.targets.Sublist cluster.targets)
    (connects : later.connects = cluster.connects) (answers : later.answers = cluster.answers)
    (fresh : cluster.fresh ≤ later.fresh) : Pending qt later := by
  apply pending.keep connects answers fresh
  · intro target member connecting
    exact ⟨target, fewer.subset member, connecting, rfl, rfl⟩
  · exact pending.first.sublist fewer

theorem Pending.reported (pending : Pending qt cluster) (reported : Reported cluster later) : Pending qt later := by
  have state {target other : STarget} (report : Report target other) (connecting : other.state = .connecting) :
      target.state = .connecting := by
    rcases report.state with same | ⟨-, changed⟩
    · exact same ▸ connecting
    · rw [connecting] at changed
      simp at changed
  apply pending.keep reported.connects reported.answers (Nat.le_of_eq reported.fresh.symm)
  · intro target member connecting
    obtain ⟨old, found, report⟩ := forall₂_mem_right reported.targets member
    refine ⟨old, found, state report connecting, report.caller, ?_⟩
    rw [report.name]
    rfl
  · apply pairwise_forall₂ reported.targets _ pending.first
    intro first second other another head matched unlike connecting
    rw [head.name, matched.name]
    exact unlike (state matched connecting)

theorem Pending.add_target (pending : Pending qt cluster) (name address : QString) :
    Pending qt (add_target qt cluster name address) := by
  unfold Cluster.add_target
  cases find_target qt cluster.targets name with
  | some index => exact pending.modify rfl rfl rfl (Nat.le_refl _) (fun _ => rfl) (fun _ => rfl) (fun _ => id)
  | none => exact pending.append rfl rfl rfl (Nat.le_succ _) (by simp)

theorem Pending.disconnect (pending : Pending qt cluster) (name : QString) :
    Pending qt (disconnect qt cluster name) := by
  unfold Cluster.disconnect
  split
  · exact pending
  · split
    · exact pending
    · refine pending.modify rfl rfl rfl (Nat.le_refl _) (fun _ => rfl) (fun _ => rfl) ?_
      intro target connecting
      cases connecting

theorem Pending.load_targets (pending : Pending qt cluster) (file : List Record) :
    Pending qt (load_targets cluster file) := by
  have idle : ∀ target ∈ loaded cluster.fresh file, target.state ≠ .connecting := by
    intro target member
    rw [(loaded_new file cluster.fresh target member).1]
    simp
  refine pending.keep rfl rfl (Nat.le_add_right _ _) ?_ ?_
  · intro target member connecting
    exact absurd connecting (idle target member)
  · apply List.pairwise_of_forall_mem_list
    intro first _ second member connecting
    exact absurd connecting (idle second member)

theorem Pending.update_target (pending : Pending qt cluster) (oldName newName address : QString)
    (kept : ∀ index ∈ find_target qt cluster.targets oldName, ∀ target ∈ cluster.targets[index]?, target.state = .connecting → qt.Same newName oldName ∨ nameFree qt cluster.targets index newName = false)
    : Pending qt (update_target qt cluster oldName newName address) := by
  unfold Cluster.update_target
  cases found : find_target qt cluster.targets oldName with
  | none => exact pending
  | some index =>
    simp only
    split
    · rename_i permitted
      obtain ⟨before, target, after, split, rfl, -, named, -⟩ := find_target_some found
      have here : cluster.targets[before.length]? = some target := by simp [split]
      have same (connecting : target.state = .connecting) : qt.Same newName target.name := by
        rcases kept before.length found target here connecting with same | taken
        · exact same.trans named.symm
        · rcases permitted with same | free
          · exact same.trans named.symm
          · simp [taken] at free
      have state (connecting : (renamed newName address target).state = .connecting) : target.state = .connecting := by
        simp only [renamed] at connecting
        split_ifs at connecting
        exact connecting
      have pairs := pending.first
      rw [split, List.pairwise_append, List.pairwise_cons] at pairs
      obtain ⟨front, ⟨behind, back⟩, across⟩ := pairs
      refine pending.keep rfl rfl (Nat.le_refl _) ?_ ?_
      · intro other member connecting
        simp only [split, modify_append, List.mem_append, List.mem_cons] at member
        rcases member with earlier | rfl | later
        · exact ⟨other, by simp [split, earlier], connecting, rfl, rfl⟩
        · exact ⟨target, by simp [split], state connecting, rfl, same (state connecting)⟩
        · exact ⟨other, by simp [split, later], connecting, rfl, rfl⟩
      · simp only [split, modify_append]
        rw [List.pairwise_append, List.pairwise_cons]
        refine ⟨front, ⟨?_, back⟩, ?_⟩
        · intro other later connecting clash
          rcases permitted with unchanged | free
          · exact behind other later connecting ((unchanged.trans named.symm).symm.trans clash)
          · have all := List.all_eq_true.mp free
            rw [split, eraseIdx_append_cons] at all
            have unlike := all other (List.mem_append_right _ later)
            simp only [Bool.not_eq_true', decide_eq_false_iff_not] at unlike
            exact unlike clash.symm
        · intro other earlier second member connecting
          rcases List.mem_cons.mp member with rfl | later
          · have unlike := across other earlier target (by simp) (state connecting)
            exact fun clash => unlike (clash.trans (same (state connecting)))
          · exact across other earlier second (List.mem_cons_of_mem _ later) connecting
    · exact pending

/-! ### The sections of a call -/

theorem Pending.connect (pending : Pending qt cluster) (name address : QString) (identity : EIdentityPolicy)
    (takeView : Bool) : Pending qt (connect qt cluster name address identity takeView) := by
  have added : Pending qt (Cluster.add_target qt cluster name address) := pending.add_target name address
  unfold Cluster.connect
  generalize Cluster.add_target qt cluster name address = grown at added
  constructor
  · intro one member
    rcases List.mem_append.mp member with old | new
    · exact Nat.lt_succ_of_lt (added.older one old)
    · rw [List.mem_singleton.mp new]
      exact Nat.lt_succ_self _
  · simp only [List.map_append, List.map_cons, List.map_nil]
    refine List.Nodup.append added.unique (List.nodup_singleton _) ?_
    intro call listed last
    obtain ⟨one, member, rfl⟩ := List.mem_map.mp listed
    have smaller := added.older one member
    have equal := List.mem_singleton.mp last
    omega
  · intro answer member
    obtain ⟨smaller, gone⟩ := added.returned answer member
    refine ⟨Nat.lt_succ_of_lt smaller, ?_⟩
    intro one new
    rcases List.mem_append.mp new with old | last
    · exact gone one old
    · rw [List.mem_singleton.mp last]
      exact Nat.ne_of_gt smaller
  · intro target member connecting
    obtain ⟨one, found, stage, owner, named⟩ := added.waiting target member connecting
    exact ⟨one, List.mem_append_left _ found, stage, owner, named⟩
  · exact added.first

theorem mem_setStage {call : Nat} {stage : Stage} (started : stage ≠ .added) (member : one ∈ cluster.connects) :
    ∃ other ∈ (setStage cluster call stage).connects,
      other.call = one.call ∧ other.name = one.name ∧ (one.stage ≠ .added → other.stage ≠ .added) := by
  by_cases same : one.call = call
  · refine ⟨{ one with stage := stage }, ?_, rfl, rfl, fun _ => started⟩
    exact List.mem_map.mpr ⟨one, member, by simp [same]⟩
  · refine ⟨one, ?_, rfl, rfl, id⟩
    exact List.mem_map.mpr ⟨one, member, by simp [same]⟩

theorem Pending.setStage (pending : Pending qt cluster) (call : Nat) {stage : Stage} (started : stage ≠ .added) :
    Pending qt (setStage cluster call stage) := by
  have calls : (Cluster.setStage cluster call stage).connects.map Connecting.call =
      cluster.connects.map Connecting.call := by
    simp only [Cluster.setStage, List.map_map]
    apply List.map_congr_left
    intro one member
    by_cases same : one.call = call <;> simp [same]
  constructor
  · intro one member
    have listed : one.call ∈ cluster.connects.map Connecting.call := calls ▸ List.mem_map.mpr ⟨one, member, rfl⟩
    obtain ⟨old, found, same⟩ := List.mem_map.mp listed
    exact same ▸ pending.older old found
  · rw [calls]
    exact pending.unique
  · intro answer member
    obtain ⟨smaller, gone⟩ := pending.returned answer member
    refine ⟨smaller, ?_⟩
    intro one listed
    have known : one.call ∈ cluster.connects.map Connecting.call := calls ▸ List.mem_map.mpr ⟨one, listed, rfl⟩
    obtain ⟨old, found, same⟩ := List.mem_map.mp known
    exact same ▸ gone old found
  · intro target member connecting
    obtain ⟨one, found, late, owner, named⟩ := pending.waiting target member connecting
    obtain ⟨other, otherFound, call, name, begun⟩ := mem_setStage started found
    exact ⟨other, otherFound, begun late, by rw [call]; exact owner, by rw [name]; exact named⟩
  · exact pending.first

theorem Pending.answer (pending : Pending qt cluster) (member : one ∈ cluster.connects) (system : Option Remote)
    (status : Option Status)
    (settled : ∀ target ∈ cluster.targets, target.state = .connecting → target.caller ≠ some one.call) :
    Pending qt (answer cluster one.call system status) := by
  constructor
  · intro other listed
    exact pending.older other (List.mem_of_mem_filter listed)
  · exact pending.unique.sublist (List.filter_sublist.map _)
  · intro answer listed
    rcases List.mem_append.mp listed with old | new
    · obtain ⟨smaller, gone⟩ := pending.returned answer old
      exact ⟨smaller, fun other found => gone other (List.mem_of_mem_filter found)⟩
    · rw [List.mem_singleton.mp new]
      refine ⟨pending.older one member, ?_⟩
      intro other found
      simpa using (List.mem_filter.mp found).2
  · intro target found connecting
    obtain ⟨other, otherMember, late, owner, named⟩ := pending.waiting target found connecting
    refine ⟨other, List.mem_filter.mpr ⟨otherMember, ?_⟩, late, owner, named⟩
    have unlike : other.call ≠ one.call := fun same => settled target found connecting (same ▸ owner)
    simpa using unlike
  · exact pending.first

theorem Pending.owner (pending : Pending qt cluster) (member : one ∈ cluster.connects) {target : STarget}
    (found : target ∈ cluster.targets) (connecting : target.state = .connecting)
    (caller : target.caller = some one.call) :
    one.stage ≠ .added ∧ entryOf qt cluster.targets one.name = some target := by
  obtain ⟨other, otherMember, late, owner, named⟩ := pending.waiting target found connecting
  have same : other.call = one.call := Option.some.inj (owner.symm.trans caller)
  obtain rfl := List.inj_on_of_nodup_map pending.unique otherMember member same
  exact ⟨late, pending.finds found connecting named⟩

theorem Pending.begin_connect (pending : Pending qt cluster) (member : one ∈ cluster.connects)
    (stage : one.stage = .added) : Pending qt (begin_connect qt cluster one) := by
  unfold Cluster.begin_connect
  cases found : find_target qt cluster.targets one.name with
  | none => exact pending.setStage one.call (by simp)
  | some index =>
    simp only
    cases (cluster.targets[index]?).bind STarget.system with
    | some up =>
      apply pending.answer member
      intro target listed connecting caller
      exact (pending.owner member listed connecting caller).1 stage
    | none =>
      obtain ⟨before, target, after, split, rfl, entry, named, passed⟩ := find_target_some found
      have staged := pending.setStage one.call (show Stage.marked ≠ .added by simp)
      obtain ⟨other, otherMember, call, name, -⟩ := mem_setStage (show Stage.marked ≠ .added by simp) member
      have late : other.stage = .marked := by
        obtain ⟨origin, -, made⟩ := List.mem_map.mp otherMember
        by_cases same : origin.call = one.call
        · rw [if_pos same] at made
          rw [← made]
        · rw [if_neg same] at made
          rw [made] at same
          exact absurd call same
      have pairs := pending.first
      rw [split, List.pairwise_append, List.pairwise_cons] at pairs
      obtain ⟨front, ⟨behind, back⟩, across⟩ := pairs
      constructor
      · exact staged.older
      · exact staged.unique
      · exact staged.returned
      · intro marked listed connecting
        simp only [Cluster.setStage, split, modify_append, List.mem_append, List.mem_cons] at listed
        rcases listed with earlier | rfl | later
        · exact staged.waiting marked (by simp [Cluster.setStage, split, earlier]) connecting
        · exact ⟨other, otherMember, by simp [late], by simp [call], by rw [name]; exact named⟩
        · exact staged.waiting marked (by simp [Cluster.setStage, split, later]) connecting
      · simp only [Cluster.setStage, split, modify_append]
        rw [List.pairwise_append, List.pairwise_cons]
        refine ⟨front, ⟨behind, back⟩, ?_⟩
        intro earlier listed second member connecting
        rcases List.mem_cons.mp member with rfl | later
        · exact fun clash => passed earlier listed (clash.trans named)
        · exact across earlier listed second (List.mem_cons_of_mem _ later) connecting

theorem Pending.finish_connect (pending : Pending qt cluster) (member : one ∈ cluster.connects)
    (result : Except Nat QString) : Pending qt (finish_connect qt cluster one result) := by
  have unfound (absent : find_target qt cluster.targets one.name = none) :
      ∀ target ∈ cluster.targets, target.state = .connecting → target.caller ≠ some one.call := by
    intro target listed connecting caller
    have entry := (pending.owner member listed connecting caller).2
    simp [entryOf, absent] at entry
  -- the entry that is found is the only one the call can have set
  have settled {index : Nat} (found : find_target qt cluster.targets one.name = some index) {change : STarget → STarget}
      (ended : ∀ target, (change target).state ≠ .connecting) :
      ∀ target ∈ cluster.targets.modify index change, target.state = .connecting → target.caller ≠ some one.call := by
    obtain ⟨before, target, after, split, rfl, entry, named, passed⟩ := find_target_some found
    have pairs := pending.first
    rw [split, List.pairwise_append, List.pairwise_cons] at pairs
    intro other listed connecting caller
    simp only [split, modify_append, List.mem_append, List.mem_cons] at listed
    rcases listed with earlier | rfl | later
    · have known : other ∈ cluster.targets := by simp [split, earlier]
      have here := (pending.owner member known connecting caller).2
      rw [entry] at here
      cases here
      exact passed target earlier named
    · exact ended target connecting
    · have known : other ∈ cluster.targets := by simp [split, later]
      have here := (pending.owner member known connecting caller).2
      rw [entry] at here
      cases here
      exact pairs.2.1.1 target later connecting rfl
  unfold Cluster.finish_connect
  split
  · rename_i absent
    exact pending.answer member _ _ (unfound absent)
  · rename_i absent
    exact pending.answer member _ _ (unfound absent)
  · rename_i index code found
    have failed : Pending qt { cluster with
        targets := cluster.targets.modify index (fun target => { target with state := .failed, lastError := code }) } := by
      refine pending.modify rfl rfl rfl (Nat.le_refl _) (fun _ => rfl) (fun _ => rfl) ?_
      intro target connecting
      cases connecting
    exact failed.answer member _ _ (settled found (by simp))
  · rename_i index machineId found
    simp only
    generalize Remote.mk cluster.fresh one.address machineId machineId = object
    generalize (if .remote object ∈ cluster.nodes then cluster.nodes else cluster.nodes ++ [.remote object]) = nodes
    generalize (if !cluster.clusterMode && one.takeView then some object else cluster.viewSystem) = view
    have up : Pending qt { cluster with
        targets := cluster.targets.modify index (credited object)
        nodes := nodes
        viewSystem := view
        fresh := cluster.fresh + 1 } := by
      refine pending.modify rfl rfl rfl (Nat.le_succ _) (fun _ => rfl) (fun _ => rfl) ?_
      intro target connecting
      cases connecting
    exact up.answer member _ _ (settled found (by simp [credited]))

/-! ### Every run -/

/-- No step leaves an entry connecting with nobody to end it: the module gives
    an object whenever the entry is still waiting for it, and no connecting entry
    is given another name. -/
def Completes (qt : Qt) (cluster : CCluster) : Action → Prop
  | .noRemote call _ =>
    ∀ one ∈ findCall cluster call, ∀ target ∈ entryOf qt cluster.targets one.name, target.state ≠ .connecting
  | .updateTarget oldName newName _ =>
    ∀ index ∈ find_target qt cluster.targets oldName, ∀ target ∈ cluster.targets[index]?,
      target.state = .connecting → qt.Same newName oldName ∨ nameFree qt cluster.targets index newName = false
  | _ => True

instance (qt : Qt) (cluster : CCluster) : ∀ action, Decidable (Completes qt cluster action)
  | .noRemote call _ => inferInstanceAs (Decidable (∀ one ∈ findCall cluster call, _))
  | .updateTarget oldName _ _ => inferInstanceAs (Decidable (∀ index ∈ find_target qt cluster.targets oldName, _))
  | .addTarget .. | .disconnect .. | .removeTarget .. | .eraseTarget .. | .onDiscovered .. | .startDiscovery
  | .stopDiscovery | .loadTargets .. | .connect .. | .beginConnect .. | .readExpected .. | .finishConnect ..
  | .connectionLost .. | .reconnectRefused .. | .reconnected .. | .retryLostNodes .. | .markLocalDaemon ..
  | .setViewSystem .. | .setGraphSystem .. | .setClusterMode .. => isTrue trivial

theorem Pending.step {action : Action} (pending : Pending qt cluster) (meets : Completes qt cluster action)
    (moved : step qt cluster action = some later) : Pending qt later := by
  cases step_took moved with
  | quiet reported => exact pending.reported reported
  | addTarget name address => exact pending.add_target name address
  | updateTarget oldName newName address => exact pending.update_target oldName newName address meets
  | disconnect name => exact pending.disconnect name
  | removeTarget removes =>
    refine (pending.disconnect _).sublist (List.Sublist.refl _) rfl rfl ?_
    rw [disconnect_fresh]
    exact Nat.le_succ _
  | eraseTarget found removes =>
    unfold erase_target
    split
    · exact { pending with }
    · exact pending.sublist (List.eraseIdx_sublist _ _) rfl rfl (Nat.le_refl _)
  | onDiscovered address hostName machineId =>
    unfold on_discovered
    split
    · exact pending
    · exact pending.append rfl rfl rfl (Nat.le_succ _) (by simp)
  | stopDiscovery =>
    unfold stop_discovery
    split
    · exact pending.sublist List.filter_sublist rfl rfl (Nat.le_refl _)
    · exact pending
  | loadTargets file => exact pending.load_targets file
  | connect name address identity takeView => exact pending.connect name address identity takeView
  | beginConnect found stage => exact pending.begin_connect (findCall_some found).1 stage
  | readExpected found stage => exact pending.setStage _ (by simp)
  | noRemote found stage available =>
    apply pending.answer (findCall_some found).1
    intro target listed connecting caller
    have entry := (pending.owner (findCall_some found).1 listed connecting caller).2
    exact meets _ found target entry connecting
  | finishConnect found stage accepted => exact pending.finish_connect (findCall_some found).1 _

theorem pending_initial : Pending qt {} := by
  refine ⟨?_, List.nodup_nil, ?_, ?_, List.Pairwise.nil⟩
  · intro one member
    cases member
  · intro answer member
    cases member
  · intro target member
    cases member

/-- An entry is connecting only while the call that made it so has not returned,
    and a call that returned nothing has left no entry connecting. -/
theorem no_target_left_connecting {cluster : CCluster} (run : Run (step qt) (Completes qt) {} cluster) :
    (∀ target ∈ cluster.targets, target.state = .connecting → ∃ one ∈ cluster.connects, target.caller = some one.call) ∧
      ∀ answer ∈ cluster.answers, answer.system = none →
        ∀ target ∈ cluster.targets, target.state = .connecting → target.caller ≠ some answer.call := by
  have pending : Pending qt cluster := run.invariant (Pending qt) pending_initial Pending.step
  constructor
  · intro target member connecting
    obtain ⟨one, found, -, owner, -⟩ := pending.waiting target member connecting
    exact ⟨one, found, owner⟩
  · intro answer returned _ target member connecting caller
    obtain ⟨one, found, -, owner, -⟩ := pending.waiting target member connecting
    have same : one.call = answer.call := Option.some.inj (owner.symm.trans caller)
    exact (pending.returned answer returned).2 one found same

/-- One call is refused, another is under way. -/
def refusedRun : List Action :=
  [.connect ['b', 'o', 'x'] ['a', ':', '1'] .requireSaved true, .beginConnect 1, .readExpected 1,
    .connect ['p', 'c'] ['b', ':', '1'] .requireSaved false, .beginConnect 3, .finishConnect 1 (.error 5)]

theorem no_target_left_connecting_refused :
    ∃ cluster, runs (step asciiQt) {} refusedRun = some cluster ∧
      cluster.targets.map STarget.state = [.failed, .connecting] ∧
      (∀ target ∈ cluster.targets, target.state = .connecting → ∃ one ∈ cluster.connects, target.caller = some one.call) := by
  have meets : Meets (step asciiQt) (Completes asciiQt) {} refusedRun := by decide
  exact ⟨_, rfl, rfl, (no_target_left_connecting (Run.of_runs .start meets rfl)).1⟩

/-- The module is not there: the call returns, and the entry goes on connecting. -/
def moduleMissingRun : List Action :=
  [.connect ['b', 'o', 'x'] ['a', ':', '1'] .requireSaved true, .beginConnect 1, .readExpected 1, .noRemote 1 false]

theorem target_left_connecting :
    ¬ ∀ cluster, Run (step asciiQt) Always {} cluster →
      (∀ target ∈ cluster.targets, target.state = .connecting → ∃ one ∈ cluster.connects, target.caller = some one.call) ∧
      ∀ answer ∈ cluster.answers, answer.system = none →
        ∀ target ∈ cluster.targets, target.state = .connecting → target.caller ≠ some answer.call := by
  intro settled
  have meets : Meets (step asciiQt) Always {} moduleMissingRun := meets_always _ _
  have last := (settled _ (Run.of_runs .start meets rfl)).2
  revert last
  decide

end TaskExplorer.ClusterConnect
