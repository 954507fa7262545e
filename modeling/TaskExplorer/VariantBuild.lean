import TaskExplorer.VariantTree

/-!
# Building variants

A plan says how a variant is put together: from a value, by inserting into a
container, or by writing a container in one go. Encoding what a plan builds and
decoding it again gives the tree the plan describes.
-/

namespace TaskExplorer.VariantBuild
open Codec OrderedMap VariantFormat VariantContainer
open VariantValue VariantTree
set_option linter.unusedSimpArgs false

inductive Plan where
  /-- A variant constructed from a value. -/
  | leaf (type : VarType) (payload : Bytes)
  /-- A value, which the `Write` functions take without a variant around it. -/
  | value (type : VarType) (payload : Bytes)
  /-- `Insert` or `Append` of every step, into a container constructed as such or
      into a variant that is EMPTY at first. -/
  | inserted (typed : Bool) (kind : Kind) (steps : List (Key × Plan))
  /-- `BeginMap`, `BeginList` or `BeginIMap`, a `Write` for every step, and `Finish`. -/
  | written (kind : Kind) (steps : List (Key × Plan))

theorem Plan.induct {holds : Plan → Prop} (leaf : ∀ type payload, holds (.leaf type payload))
    (value : ∀ type payload, holds (.value type payload))
    (inserted : ∀ typed kind steps, (∀ step ∈ steps, holds step.2) → holds (.inserted typed kind steps))
    (written : ∀ kind steps, (∀ step ∈ steps, holds step.2) → holds (.written kind steps)) : ∀ plan, holds plan
  | .leaf type payload => leaf type payload
  | .value type payload => value type payload
  | .inserted typed kind steps =>
    inserted typed kind steps (fun step _ => Plan.induct leaf value inserted written step.2)
  | .written kind steps => written kind steps (fun step _ => Plan.induct leaf value inserted written step.2)
termination_by plan => plan
decreasing_by
  all_goals
    rename_i member
    have smaller := List.sizeOf_lt_of_mem member
    cases step
    simp only [Prod.mk.sizeOf_spec, Plan.inserted.sizeOf_spec, Plan.written.sizeOf_spec] at smaller ⊢
    omega

/-! ## Running a plan -/

/-- `CVariant(Type)`, for a container and for EMPTY. -/
def new_container (typed : Bool) (kind : Kind) : Variant :=
  if typed then .opened .readWrite kind [] [] else .raw .readWrite ⟨VAR_TYPE_EMPTY, []⟩

def insert_key (target : Variant) : Key → Variant → Except CException Variant
  | .name name, variant => insert_name target name variant
  | .id index, variant => insert_index target index variant
  | .item, variant => append target variant

mutual
def build : Plan → Except CException Variant
  | .leaf type payload => .ok (.raw .readWrite ⟨type, payload⟩)
  | .value type payload => .ok (.raw .readWrite ⟨type, payload⟩)
  | .inserted typed kind steps => insert_steps (new_container typed kind) steps
  | .written kind steps => do
    let filled ← write_steps (begin_container kind) steps
    finish filled

def insert_steps : Variant → List (Key × Plan) → Except CException Variant
  | target, [] => .ok target
  | target, (key, plan) :: rest => do
    let variant ← build plan
    let target ← insert_key target key variant
    insert_steps target rest

def write_steps : Variant → List (Key × Plan) → Except CException Variant
  | target, [] => .ok target
  | target, (key, .value type payload) :: rest => do
    let target ← write_value target key type payload
    write_steps target rest
  | target, (key, plan) :: rest => do
    let variant ← build plan
    let target ← write_variant target key variant
    write_steps target rest
end

/-! ## What a plan describes -/

section Arrange
variable {α β : Type}

/-- A later entry takes the place of an earlier one under its key; a list keeps
    them all. -/
def place (kind : Kind) (entries : List (Key × α)) (pair : Key × α) : List (Key × α) :=
  match kind with
  | .list => entries ++ [pair]
  | _ => put pair.1 pair.2 entries

def arrange (kind : Kind) (pairs : List (Key × α)) : List (Key × α) := pairs.foldl (place kind) []

theorem mem_place {kind : Kind} {entries : List (Key × α)} {pair other : Key × α} (member : other ∈ place kind entries pair) :
    other = pair ∨ other ∈ entries := by
  cases kind with
  | list =>
    rcases List.mem_append.mp member with before | last
    · exact Or.inr before
    · exact Or.inl (List.mem_singleton.mp last)
  | map => exact mem_put member
  | index => exact mem_put member

theorem mem_arrange {kind : Kind} {pairs : List (Key × α)} {pair : Key × α} (member : pair ∈ arrange kind pairs) : pair ∈ pairs := by
  have grow (entries : List (Key × α)) (found : pair ∈ pairs.foldl (place kind) entries) : pair ∈ entries ∨ pair ∈ pairs := by
    clear member
    induction pairs generalizing entries with
    | nil => exact Or.inl found
    | cons head rest ih =>
      rcases ih _ found with kept | later
      · rcases mem_place kept with rfl | before
        · exact Or.inr (by simp)
        · exact Or.inl before
      · exact Or.inr (List.mem_cons_of_mem _ later)
  rcases grow [] member with impossible | found
  · simp at impossible
  · exact found

theorem arranged_arrange {kind : Kind} {pairs : List (Key × α)}
    (keys : ∀ pair ∈ pairs, KeyFits kind pair.1 ∧ pair.1.stored = pair.1) : Arranged kind (arrange kind pairs) where
  fits pair member := keys pair (mem_arrange member)
  sorted ordered := by
    have grow (entries : List (Key × α)) (sorted : Sorted entries) : Sorted (pairs.foldl (place kind) entries) := by
      clear keys
      induction pairs generalizing entries with
      | nil => exact sorted
      | cons head rest ih =>
        apply ih
        cases kind with
        | list => exact absurd rfl ordered
        | map => exact sorted_put sorted
        | index => exact sorted_put sorted
    exact grow [] List.Pairwise.nil

theorem collect_eq_arrange {kind : Kind} {pairs : List (Key × α)} (stored : ∀ pair ∈ pairs, pair.1.stored = pair.1)
    (distinct : kind ≠ .list → (pairs.map Prod.fst).Nodup) : collect kind pairs = arrange kind pairs := by
  have grow (entries : List (Key × α)) (fresh : ∀ pair ∈ pairs, kind ≠ .list → find pair.1 entries = none) :
      pairs.foldl (fun entries pair => insert_entry kind entries pair.1.stored pair.2) entries =
        pairs.foldl (place kind) entries := by
    induction pairs generalizing entries with
    | nil => rfl
    | cons head rest ih =>
      have first := fresh head (by simp)
      have same : insert_entry kind entries head.1.stored head.2 = place kind entries head := by
        rw [stored head (by simp)]
        cases kind with
        | list => rfl
        | map => simp [insert_entry, add, place, first]
        | index => simp [insert_entry, add, place, first]
      rw [List.foldl_cons, List.foldl_cons, same]
      refine ih (fun pair member => stored pair (List.mem_cons_of_mem _ member))
        (fun ordered => (List.nodup_cons.mp (distinct ordered)).2) _ ?_
      intro pair member ordered
      have other : head.1 ≠ pair.1 := by
        intro equal
        exact (List.nodup_cons.mp (distinct ordered)).1 (equal ▸ List.mem_map.mpr ⟨pair, member, rfl⟩)
      have before := fresh pair (List.mem_cons_of_mem _ member) ordered
      cases kind with
      | list => exact absurd rfl ordered
      | map => simp [place, find_put, before, Ne.symm other, other]
      | index => simp [place, find_put, before, Ne.symm other, other]
  exact grow [] (fun _ _ _ => rfl)

/-- Entries with the same keys, and values that belong together. -/
def Keyed (holds : α → β → Prop) (left : Key × α) (right : Key × β) : Prop := left.1 = right.1 ∧ holds left.2 right.2

private theorem forall₂_put {holds : α → β → Prop} {left : List (Key × α)} {right : List (Key × β)}
    (related : List.Forall₂ (Keyed holds) left right) (key : Key) {value : α} {other : β} (good : holds value other) :
    List.Forall₂ (Keyed holds) (put key value left) (put key other right) := by
  induction related with
  | nil => exact .cons ⟨rfl, good⟩ .nil
  | cons head tail ih =>
    rename_i first second firsts seconds
    obtain ⟨firstKey, firstValue⟩ := first
    obtain ⟨secondKey, secondValue⟩ := second
    obtain ⟨rfl, headGood⟩ := head
    simp only [put]
    split_ifs
    · exact .cons ⟨rfl, good⟩ (.cons ⟨rfl, headGood⟩ tail)
    · exact .cons ⟨rfl, good⟩ tail
    · exact .cons ⟨rfl, headGood⟩ ih

theorem forall₂_place {holds : α → β → Prop} (kind : Kind) {left : List (Key × α)} {right : List (Key × β)}
    (related : List.Forall₂ (Keyed holds) left right) {pair : Key × α} {other : Key × β} (good : Keyed holds pair other) :
    List.Forall₂ (Keyed holds) (place kind left pair) (place kind right other) := by
  obtain ⟨key, value⟩ := pair
  obtain ⟨otherKey, otherValue⟩ := other
  obtain ⟨rfl, good⟩ := good
  cases kind with
  | list => exact List.rel_append related (.cons ⟨rfl, good⟩ .nil)
  | map => exact forall₂_put related key good
  | index => exact forall₂_put related key good

theorem forall₂_arrange {holds : α → β → Prop} (kind : Kind) {left : List (Key × α)} {right : List (Key × β)}
    (related : List.Forall₂ (Keyed holds) left right) :
    List.Forall₂ (Keyed holds) (arrange kind left) (arrange kind right) := by
  have grow (entries : List (Key × α)) (others : List (Key × β)) (before : List.Forall₂ (Keyed holds) entries others) :
      List.Forall₂ (Keyed holds) (left.foldl (place kind) entries) (right.foldl (place kind) others) := by
    induction related generalizing entries others with
    | nil => exact before
    | cons head tail ih => exact ih _ _ (forall₂_place kind before head)
  exact grow [] [] .nil

end Arrange

namespace Plan

def type : Plan → VarType
  | .leaf type _ => type
  | .value type _ => type
  | .inserted typed kind steps => if typed ∨ steps ≠ [] then kind.type else VAR_TYPE_EMPTY
  | .written kind _ => kind.type

end Plan

mutual
def planned : Plan → Tree
  | .leaf type payload => .leaf type payload
  | .value type payload => .leaf type payload
  | .inserted typed kind steps =>
    if typed ∨ steps ≠ [] then .node kind (arrange kind (planned_steps steps)) else .leaf VAR_TYPE_EMPTY []
  | .written kind steps => .node kind (arrange kind (planned_steps steps))

def planned_steps : List (Key × Plan) → List (Key × Tree)
  | [] => []
  | (key, plan) :: rest => (key, planned plan) :: planned_steps rest
end

mutual
/-- The payload a plan comes to, however long it is. -/
def spelled : Plan → Bytes
  | .leaf _ payload => payload
  | .value _ payload => payload
  | .inserted _ kind steps => (arrange kind (spelled_steps steps)).flatMap write_entry
  | .written _ steps => (spelled_steps steps).flatMap write_entry

def spelled_steps : List (Key × Plan) → List (Key × Packed)
  | [] => []
  | (key, plan) :: rest => (key, ⟨plan.type, spelled plan⟩) :: spelled_steps rest
end

/-- Leaves of a type that is no container, an EMPTY without a payload, names that
    fit their length byte and hold no NUL, distinct keys where a container is
    written in one go, and no payload of 2^32 - 1 bytes or more. -/
inductive Valid : Plan → Prop where
  | leaf {type : VarType} {payload : Bytes} (plain : kindOf type = none) (bare : type = VAR_TYPE_EMPTY → payload = [])
      (fits : payload.length < 2 ^ 32 - 1) : Valid (.leaf type payload)
  | value {type : VarType} {payload : Bytes} (plain : kindOf type = none) (bare : type = VAR_TYPE_EMPTY → payload = [])
      (fits : payload.length < 2 ^ 32 - 1) : Valid (.value type payload)
  | inserted {typed : Bool} {kind : Kind} {steps : List (Key × Plan)}
      (keys : ∀ step ∈ steps, KeyFits kind step.1 ∧ step.1.stored = step.1) (each : ∀ step ∈ steps, Valid step.2)
      (fits : (spelled (.inserted typed kind steps)).length < 2 ^ 32 - 1) : Valid (.inserted typed kind steps)
  | written {kind : Kind} {steps : List (Key × Plan)}
      (keys : ∀ step ∈ steps, KeyFits kind step.1 ∧ step.1.stored = step.1)
      (distinct : kind ≠ .list → (steps.map Prod.fst).Nodup) (each : ∀ step ∈ steps, Valid step.2)
      (fits : (spelled (.written kind steps)).length < 2 ^ 32 - 1) : Valid (.written kind steps)

/-! ## Plans are carried out -/

def packedOf (plan : Plan) : Packed := ⟨plan.type, spelled plan⟩

/-- A variant that can be stored and written, and what it is written as. -/
structure Built (variant : Variant) (packed : Packed) : Prop where
  type : variant.type = packed.type
  payload : mk_payload variant = .ok packed.payload
  shared : assign variant = variant

variable {entries : List (Key × Variant)} {kind : Kind} {steps : List (Key × Plan)}

theorem mk_entries_built {packs : List (Key × Packed)} (related : List.Forall₂ (Keyed Built) entries packs) :
    mk_entries entries = .ok (packs.flatMap write_entry) := by
  induction related with
  | nil => rfl
  | cons head tail ih =>
    rename_i pair pack pairs packs
    obtain ⟨key, variant⟩ := pair
    obtain ⟨otherKey, packed⟩ := pack
    obtain ⟨rfl, built⟩ := head
    have payload := built.payload
    have type := built.type
    simp only at payload type
    simp only [mk_entries, payload, ih, type, List.flatMap_cons]
    rfl

private theorem insert_key_eq {key : Key} (fits : KeyFits kind key) (stored : key.stored = key) :
    ∃ refused, ∀ target variant, insert_key target key variant = emplace kind refused target key variant := by
  cases key with
  | name text =>
    cases kind with
    | map =>
      have whole : c_str text = text := by simpa [Key.stored] using stored
      exact ⟨_, fun target variant => by rw [insert_key, insert_name, whole]⟩
    | list => exact fits.elim
    | index => exact fits.elim
  | id value =>
    cases kind with
    | map => exact fits.elim
    | list => exact fits.elim
    | index => exact ⟨_, fun target variant => rfl⟩
  | item =>
    cases kind with
    | map => exact fits.elim
    | list => exact ⟨_, fun target variant => rfl⟩
    | index => exact fits.elim

private theorem store_shared {key : Key} {variant : Variant} (shared : assign variant = variant) :
    store kind entries key variant = place kind entries (key, variant) := by
  cases kind with
  | list => simp [store, place, shared]
  | map => simp [store, place, shared]
  | index => simp [store, place, shared]

private theorem insert_key_opened {key : Key} {variant : Variant} (fits : KeyFits kind key) (stored : key.stored = key)
    (shared : assign variant = variant) :
    insert_key (.opened .readWrite kind [] entries) key variant =
      .ok (.opened .readWrite kind [] (place kind entries (key, variant))) := by
  obtain ⟨refused, same⟩ := insert_key_eq fits stored
  rw [same, emplace]
  simp only [Variant.access, Variant.type, container, Variant.payload, store_shared shared]
  rfl

/-- `Init` makes an EMPTY variant the container that is inserted into. -/
private theorem insert_key_empty {key : Key} {variant : Variant} (fits : KeyFits kind key) (stored : key.stored = key) :
    insert_key (new_container false kind) key variant = insert_key (new_container true kind) key variant := by
  obtain ⟨refused, same⟩ := insert_key_eq fits stored
  have other : VAR_TYPE_EMPTY ≠ kind.type := fun empty => kind_type_ne_empty kind empty.symm
  rw [same, same]
  simp [emplace, new_container, Variant.access, Variant.type, other, container, Variant.payload]
  rfl

theorem insert_steps_built (keys : ∀ step ∈ steps, KeyFits kind step.1 ∧ step.1.stored = step.1)
    (builds : ∀ step ∈ steps, ∃ variant, build step.2 = .ok variant ∧ Built variant (packedOf step.2))
    {packs : List (Key × Packed)} (related : List.Forall₂ (Keyed Built) entries packs) :
    ∃ filled, insert_steps (.opened .readWrite kind [] entries) steps = .ok (.opened .readWrite kind [] filled) ∧
      List.Forall₂ (Keyed Built) filled ((spelled_steps steps).foldl (place kind) packs) := by
  induction steps generalizing entries packs with
  | nil => exact ⟨entries, by simp [insert_steps], related⟩
  | cons step rest ih =>
    obtain ⟨key, plan⟩ := step
    obtain ⟨fits, stored⟩ := keys (key, plan) (by simp)
    obtain ⟨variant, computed, built⟩ := builds (key, plan) (by simp)
    have together : Keyed Built (key, variant) (key, packedOf plan) := ⟨rfl, built⟩
    have placed := forall₂_place kind related together
    obtain ⟨filled, later, good⟩ := ih (fun step member => keys step (List.mem_cons_of_mem _ member))
      (fun step member => builds step (List.mem_cons_of_mem _ member)) placed
    refine ⟨filled, ?_, by rw [spelled_steps]; exact good⟩
    simp only at computed
    rw [insert_steps, computed]
    simp only [bind, Except.bind, insert_key_opened fits stored built.shared, later]

theorem write_steps_built (keys : ∀ step ∈ steps, KeyFits kind step.1 ∧ step.1.stored = step.1)
    (builds : ∀ step ∈ steps, ∃ variant, build step.2 = .ok variant ∧ Built variant (packedOf step.2)) (buffer : Bytes)
    :
    write_steps (.writing kind buffer) steps = .ok (.writing kind (buffer ++ (spelled_steps steps).flatMap write_entry)) := by
  induction steps generalizing buffer with
  | nil => simp [write_steps, spelled_steps]
  | cons step rest ih =>
    obtain ⟨key, plan⟩ := step
    obtain ⟨fits, stored⟩ := keys (key, plan) (by simp)
    obtain ⟨variant, computed, built⟩ := builds (key, plan) (by simp)
    have later := ih (fun step member => keys step (List.mem_cons_of_mem _ member))
      (fun step member => builds step (List.mem_cons_of_mem _ member))
      (buffer ++ write_key key ++ to_packet (packedOf plan))
    have kinds : kind = Key.kind key := by
      cases kind <;> cases key <;> first | rfl | exact fits.elim
    have packet : write_packet (.writing kind buffer) key (to_packet (packedOf plan)) =
        .ok (.writing kind (buffer ++ write_key key ++ to_packet (packedOf plan))) := by
      simp only [write_packet, if_pos kinds]
      rw [stored]
    have first : write_variant (.writing kind buffer) key variant =
        .ok (.writing kind (buffer ++ write_key key ++ to_packet (packedOf plan))) := by
      have encoded : to_packet_variant variant = .ok (to_packet (packedOf plan)) := by
        rw [to_packet_variant, built.payload, built.type]
        rfl
      rw [write_variant, encoded]
      exact packet
    have regrouped : buffer ++ write_key key ++ to_packet (packedOf plan) ++ (spelled_steps rest).flatMap write_entry =
        buffer ++ (spelled_steps ((key, plan) :: rest)).flatMap write_entry := by
      simp [spelled_steps, write_entry, packedOf]
    rw [regrouped] at later
    simp only at computed
    cases plan with
    | value type payload =>
      rw [write_steps, write_value]
      exact (congrArg (· >>= fun target => write_steps target rest) packet).trans later
    | leaf type payload =>
      rw [write_steps, computed]
      exact (congrArg (· >>= fun target => write_steps target rest) first).trans later
      all_goals simp
    | inserted typed kind steps =>
      rw [write_steps, computed]
      exact (congrArg (· >>= fun target => write_steps target rest) first).trans later
      all_goals simp
    | written kind steps =>
      rw [write_steps, computed]
      exact (congrArg (· >>= fun target => write_steps target rest) first).trans later
      all_goals simp

private theorem finish_short {buffer : Bytes} (fits : buffer.length < 2 ^ 32 - 1) :
    finish (.writing kind buffer) = .ok (.raw .readOnly ⟨kind.type, buffer⟩) := by
  have kept : buffer.length % 2 ^ 32 = buffer.length := Nat.mod_eq_of_lt (by omega)
  rw [finish, kept, List.take_length]

theorem build_built {plan : Plan} (valid : Valid plan) : ∃ variant, build plan = .ok variant ∧ Built variant (packedOf plan) := by
  induction plan using Plan.induct with
  | leaf type payload =>
    cases valid with
    | leaf plain bare fits => exact ⟨_, by rw [build], rfl, by simp [mk_payload, plain, packedOf, spelled], rfl⟩
  | value type payload =>
    cases valid with
    | value plain bare fits => exact ⟨_, by rw [build], rfl, by simp [mk_payload, plain, packedOf, spelled], rfl⟩
  | inserted typed kind steps ih =>
    cases valid with
    | inserted keys each fits =>
      obtain ⟨filled, computed, related⟩ := insert_steps_built keys (fun step member => ih step member (each step member)) .nil
      have payload : mk_payload (.opened .readWrite kind [] filled) = .ok (spelled (.inserted typed kind steps)) := by
        rw [spelled]
        exact mk_entries_built related
      -- from an EMPTY variant the first step leads to the same container
      by_cases started : typed ∨ steps ≠ []
      · refine ⟨.opened .readWrite kind [] filled, ?_, by simp [Variant.type, packedOf, Plan.type, started], payload, rfl⟩
        rw [build, ← computed]
        cases typed with
        | true => rfl
        | false =>
          cases steps with
          | nil => simp at started
          | cons step rest =>
            obtain ⟨key, plan⟩ := step
            obtain ⟨keyFits, stored⟩ := keys (key, plan) (by simp)
            simp only [insert_steps]
            cases build plan with
            | error raised => rfl
            | ok variant => exact congrArg (· >>= fun target => insert_steps target rest) (insert_key_empty keyFits stored)
      · obtain ⟨untyped, none⟩ : typed = false ∧ steps = [] := by simpa using started
        subst untyped none
        refine ⟨.raw .readWrite ⟨VAR_TYPE_EMPTY, []⟩, by rw [build, insert_steps]; rfl, rfl, rfl, rfl⟩
  | written kind steps ih =>
    cases valid with
    | written keys distinct each fits =>
      have computed := write_steps_built keys (fun step member => ih step member (each step member)) []
      rw [List.nil_append] at computed
      have whole : (spelled_steps steps).flatMap write_entry = spelled (.written kind steps) := by rw [spelled]
      refine ⟨.raw .readOnly ⟨kind.type, spelled (.written kind steps)⟩, ?_, rfl, rfl, rfl⟩
      rw [build, begin_container, computed, whole]
      exact finish_short fits

/-! ## Reading the plan back -/

private theorem encodable_packedOf {plan : Plan} (valid : Valid plan) : Encodable (packedOf plan) := by
  cases valid with
  | leaf plain bare fits => exact ⟨bare, by simp only [packedOf, spelled]; omega⟩
  | value plain bare fits => exact ⟨bare, by simp only [packedOf, spelled]; omega⟩
  | inserted keys each fits =>
    rename_i typed kind steps
    refine ⟨?_, by simp only [packedOf]; omega⟩
    intro empty
    by_cases started : typed ∨ steps ≠ []
    · exact absurd (by simpa [packedOf, Plan.type, started] using empty) (kind_type_ne_empty kind)
    · obtain ⟨-, none⟩ : typed = false ∧ steps = [] := by simpa using started
      subst none
      rw [packedOf, spelled]
      rfl
  | written keys distinct each fits => exact ⟨fun empty => absurd empty (kind_type_ne_empty _), by simp only [packedOf]; omega⟩

private theorem steps_keyed (keys : ∀ step ∈ steps, KeyFits kind step.1 ∧ step.1.stored = step.1)
    (each : ∀ step ∈ steps, Valid step.2) :
    ∀ pair ∈ spelled_steps steps, (KeyFits kind pair.1 ∧ pair.1.stored = pair.1) ∧ Encodable pair.2 := by
  induction steps with
  | nil => simp [spelled_steps]
  | cons step rest ih =>
    intro pair member
    rw [spelled_steps] at member
    rcases List.mem_cons.mp member with rfl | later
    · exact ⟨keys step (by simp), encodable_packedOf (each step (by simp))⟩
    · exact ih (fun step member => keys step (List.mem_cons_of_mem _ member))
        (fun step member => each step (List.mem_cons_of_mem _ member)) pair later

private theorem spelled_steps_keys (steps : List (Key × Plan)) : (spelled_steps steps).map Prod.fst = steps.map Prod.fst := by
  induction steps with
  | nil => rfl
  | cons step rest ih => simp [spelled_steps, ih]

private theorem steps_shown (shown : ∀ step ∈ steps, treeOf (packedOf step.2) = some (planned step.2)) :
    List.Forall₂ (Keyed (fun packed tree => treeOf packed = some tree)) (spelled_steps steps) (planned_steps steps) := by
  induction steps with
  | nil => exact .nil
  | cons step rest ih =>
    obtain ⟨key, plan⟩ := step
    rw [spelled_steps, planned_steps]
    exact .cons ⟨rfl, shown (key, plan) (by simp)⟩ (ih (fun step member => shown step (List.mem_cons_of_mem _ member)))

theorem treeOf_packedOf {plan : Plan} (valid : Valid plan) : treeOf (packedOf plan) = some (planned plan) := by
  induction plan using Plan.induct with
  | leaf type payload =>
    cases valid with
    | leaf plain bare fits => exact treeOf_leaf plain
  | value type payload =>
    cases valid with
    | value plain bare fits => exact treeOf_leaf plain
  | inserted typed kind steps ih =>
    cases valid with
    | inserted keys each fits =>
      have shown := steps_shown (fun step member => ih step member (each step member))
      have opened := openAll_eq_some.mpr (forall₂_arrange kind shown)
      have keyed := steps_keyed keys each
      have written := treeOf_written (arranged_arrange (fun pair member => (keyed pair member).1))
        (fun pair member => (keyed pair (mem_arrange member)).2)
      rw [opened] at written
      by_cases started : typed ∨ steps ≠ []
      · simpa [packedOf, Plan.type, started, spelled, planned] using written
      · obtain ⟨untyped, none⟩ : typed = false ∧ steps = [] := by simpa using started
        subst untyped none
        rw [packedOf, spelled, planned]
        rfl
  | written kind steps ih =>
    cases valid with
    | written keys distinct each fits =>
      have shown := steps_shown (fun step member => ih step member (each step member))
      have opened := openAll_eq_some.mpr (forall₂_arrange kind shown)
      have keyed := steps_keyed keys each
      have walked := raw_entries_written kind (spelled_steps steps) (fun pair member => ⟨(keyed pair member).1.1, (keyed pair member).2⟩)
      have kept : collect kind (spelled_steps steps) = arrange kind (spelled_steps steps) :=
        collect_eq_arrange (fun pair member => (keyed pair member).1.2) (fun ordered => spelled_steps_keys steps ▸ distinct ordered)
      have known : kindOf (packedOf (.written kind steps)).type = some kind := kindOf_type kind
      have parsed : parse kind (packedOf (.written kind steps)).payload = (arrange kind (spelled_steps steps), none) := by
        simp only [parse, packedOf, spelled, walked, kept]
      have read := treeOf_container known parsed
      rw [opened] at read
      rw [planned]
      exact read

/-- Decoding undoes encoding: whatever follows the packet, the tree that was
    planned is read and the position is at its end. -/
theorem from_packet_build {plan : Plan} (valid : Valid plan) (rest : Bytes) (position : Nat) :
    ∃ bytes packed, (build plan >>= to_packet_variant) = .ok bytes ∧
      from_packet ⟨bytes ++ rest, position⟩ = .ok (packed, ⟨rest, position + bytes.length⟩) ∧
      treeOf packed = some (planned plan) := by
  obtain ⟨variant, computed, built⟩ := build_built valid
  refine ⟨to_packet (packedOf plan), packedOf plan, ?_, ?_, treeOf_packedOf valid⟩
  · rw [computed]
    simp only [bind, Except.bind, to_packet_variant, built.payload, built.type]
    rfl
  · exact from_packet_to_packet (packedOf plan) (encodable_packedOf valid) rest position

theorem from_packet_build_nested :
    ∃ bytes packed, (build (.inserted true .map [(.name [0x61], .value VAR_TYPE_UINT [5]),
        (.name [0x62], .written .list [(.item, .leaf VAR_TYPE_BYTES [1, 2, 3])])]) >>= to_packet_variant) = .ok bytes ∧
      from_packet ⟨bytes ++ [0xFF], 7⟩ = .ok (packed, ⟨[0xFF], 7 + bytes.length⟩) ∧
      treeOf packed = some (planned (.inserted true .map [(.name [0x61], .value VAR_TYPE_UINT [5]),
        (.name [0x62], .written .list [(.item, .leaf VAR_TYPE_BYTES [1, 2, 3])])])) := by
  refine from_packet_build (.inserted ?_ ?_ ?_) [0xFF] 7
  · intro step member
    fin_cases member
    · exact ⟨Nat.lt_add_of_pos_right (by decide : 0 < 255), rfl⟩
    · exact ⟨Nat.lt_add_of_pos_right (by decide : 0 < 255), rfl⟩
  · intro step member
    fin_cases member
    · exact .value (by decide) (by decide) (by decide)
    · refine .written ?_ (fun ordered => absurd rfl ordered) ?_ (by decide)
      · intro step member
        fin_cases member
        exact ⟨trivial, rfl⟩
      · intro step member
        fin_cases member
        exact .leaf (by decide) (by decide) (by decide)
  · decide

end TaskExplorer.VariantBuild
