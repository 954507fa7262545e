import TaskExplorer.VariantCache

/-!
# Session handles are never reused

The history of a numeric cache under any sequence of calls: which handle was sent
for which id, and which handles were reported as removed or cleared, in the order
it happened.
-/

namespace TaskExplorer.CacheHandles
open OrderedMap VariantFormat VariantCache

section History
variable {K W : Type} [LinearOrder K]

inductive Op (K : Type) where
  | beginRound (scope : UInt64)
  | write (id : K) (field : UInt32) (value : Packed)
  | keep (id : K)
  | finishRound
  | clear
  | clearScope (scope : UInt64)

inductive Event (K : Type) where
  | sent (id : K) (key : UInt32)
  | removed (key : UInt32)
  | cleared (key : UInt32)

def step (keyType : KeyType K W) : Op K → Cache K → Cache K
  | .beginRound scope, cache => begin_round scope cache
  | .write id field value, cache => write id field value cache
  | .keep id, cache => keep id cache
  | .finishRound, cache => closed keyType cache
  | .clear, cache => clear cache
  | .clearScope scope, cache => clear_scope scope cache

/-- The ids of a round's changed entries, with the handles they are sent under. -/
def sentKeys (cache : Cache K) : List (K × UInt32) :=
  (cache.changed.entries.map Prod.fst).zip ((outcome numeric cache).sent.map Prod.fst)

/-- What a call tells the reader; clearing is told by the caller. -/
def events : Op K → Cache K → List (Event K)
  | .finishRound, cache => (outcome numeric cache).removed.map .removed ++ (sentKeys cache).map (fun pair => .sent pair.1 pair.2)
  | .clear, cache => cache.table.keys.entries.map (fun pair => .cleared pair.2)
  | .clearScope scope, cache =>
    (cache.table.keys.filter (fun id _ => (cache.entries.get id).map SEntry.scope = some scope)).entries.map
      (fun pair => .cleared pair.2)
  | _, _ => []

def handlesGiven : Op K → Cache K → Nat
  | .finishRound, cache => assignments cache
  | _, _ => 0

structure History (K : Type) [LinearOrder K] where
  cache : Cache K := {}
  log : List (Event K) := []
  assigned : Nat := 0

def History.step (history : History K) (op : Op K) : History K where
  cache := CacheHandles.step numeric op history.cache
  log := history.log ++ events op history.cache
  assigned := history.assigned + handlesGiven op history.cache

def run (ops : List (Op K)) : History K := ops.foldl History.step {}

/-! ## The invariant -/

def Retires : Event K → UInt32 → Prop
  | .sent _ _, _ => False
  | .removed key, other => key = other
  | .cleared key, other => key = other

def Mentions : Event K → UInt32 → Prop
  | .sent _ key, other => key = other
  | .removed key, other => key = other
  | .cleared _, _ => False

/-- The later event does not bring up a handle that the earlier one retired. -/
def Apart (early late : Event K) : Prop := ∀ key, Retires early key → ¬ Mentions late key

/-- Whatever handle is reported as removed has been sent before. -/
def SentBefore (log : List (Event K)) : Prop :=
  ∀ (place : Nat) (key : UInt32), log[place]? = some (Event.removed key) →
    ∃ before < place, ∃ id, log[before]? = some (Event.sent id key)

structure Sound (history : History K) : Prop where
  table : history.cache.table.Sound
  counted : history.cache.table.next.toNat = history.assigned
  wired : ∀ id key, history.cache.table.keys.get id = some key → .sent id key ∈ history.log
  retired : ∀ event ∈ history.log, ∀ key, Retires event key →
    key ≤ history.cache.table.next ∧ ∀ id, history.cache.table.keys.get id ≠ some key
  ordered : history.log.Pairwise Apart
  earlier : SentBefore history.log

private theorem sound_start : Sound ({} : History K) where
  table := ⟨by simp, by simp⟩
  counted := rfl
  wired := by simp
  retired := by simp
  ordered := List.Pairwise.nil
  earlier := by simp [SentBefore]

omit [LinearOrder K] in
private theorem sentBefore_append {log more : List (Event K)} (old : SentBefore log)
    (new : ∀ key, Event.removed key ∈ more → ∃ id, Event.sent id key ∈ log) : SentBefore (log ++ more) := by
  intro place key found
  rcases Nat.lt_or_ge place log.length with inside | outside
  · rw [List.getElem?_append_left inside] at found
    obtain ⟨before, less, id, sent⟩ := old place key found
    exact ⟨before, less, id, by rw [List.getElem?_append_left (Nat.lt_trans less inside)]; exact sent⟩
  · rw [List.getElem?_append_right outside] at found
    obtain ⟨id, sent⟩ := new key (List.mem_of_getElem? found)
    obtain ⟨before, less, same⟩ := List.mem_iff_getElem.mp sent
    refine ⟨before, by omega, id, ?_⟩
    rw [List.getElem?_append_left less, List.getElem?_eq_getElem less, same]

variable {history : History K}

private theorem sound_cleared (sound : Sound history) {op : Op K} (gone : K → Prop)
    (given : handlesGiven op history.cache = 0)
    (next : (step numeric op history.cache).table.next = history.cache.table.next)
    (kept : ∀ id key, (step numeric op history.cache).table.keys.get id = some key → history.cache.table.keys.get id = some key ∧ ¬ gone id)
    (told : ∀ event ∈ events op history.cache, ∃ id key, event = .cleared key ∧ history.cache.table.keys.get id = some key ∧ gone id)
    :
    Sound (history.step op) where
  table := by
    constructor
    · intro id other key atId atOther
      exact sound.table.injective id other key (kept id key atId).1 (kept other key atOther).1
    · intro id key held
      simp only [History.step] at held ⊢
      rw [next]
      exact sound.table.bounded id key (kept id key held).1
  counted := by simp only [History.step, next, given, Nat.add_zero, sound.counted]
  wired id key held := List.mem_append_left _ (sound.wired id key (kept id key held).1)
  retired event member key retires := by
    simp only [History.step, next]
    rcases List.mem_append.mp member with old | new
    · obtain ⟨bounded, absent⟩ := sound.retired event old key retires
      exact ⟨bounded, fun id held => absent id (kept id key held).1⟩
    · obtain ⟨id, other, rfl, held, left⟩ := told event new
      have named : other = key := retires
      subst named
      refine ⟨sound.table.bounded id other held, ?_⟩
      intro user found
      have same : user = id := sound.table.injective user id other (kept user other found).1 held
      exact (kept user other found).2 (same ▸ left)
  ordered := by
    have quiet : ∀ event ∈ events op history.cache, ∀ key, ¬ Mentions event key := by
      intro event member key
      obtain ⟨id, other, rfl, -, -⟩ := told event member
      exact fun mentions => mentions
    refine List.pairwise_append.mpr ⟨sound.ordered, ?_, fun early _ late member key _ => quiet late member key⟩
    exact List.pairwise_of_forall_mem_list (fun early _ late member key _ => quiet late member key)
  earlier := by
    refine sentBefore_append sound.earlier ?_
    intro key member
    obtain ⟨id, other, impossible, -, -⟩ := told _ member
    cases impossible

private theorem mem_sentKeys {cache : Cache K} (sound : cache.table.Sound)
    (enough : cache.table.next.toNat + assignments cache < 2 ^ 32) {id : K} {key : UInt32} :
    (id, key) ∈ sentKeys cache ↔ id ∈ cache.changed.entries.map Prod.fst ∧ (outcome numeric cache).table.keys.get id = some key := by
  have related := (outcome_spec sound enough).1
  unfold sentKeys
  revert related
  generalize cache.changed.entries = changed
  generalize (outcome numeric cache).sent = sent
  intro related
  induction related with
  | nil => simp
  | cons head tail ih =>
    rename_i pair other pairs others
    simp only [List.map_cons, List.zip_cons_cons, List.mem_cons, ih]
    constructor
    · rintro (same | ⟨member, held⟩)
      · cases same
        exact ⟨Or.inl rfl, head.1⟩
      · exact ⟨Or.inr member, held⟩
    · rintro ⟨rfl | member, held⟩
      · left
        rw [head.1] at held
        cases held
        rfl
      · exact Or.inr ⟨member, held⟩

private theorem removed_nodup {cache : Cache K} (sound : cache.table.Sound) : (outcome numeric cache).removed.Nodup := by
  rw [(swept_spec cache).1]
  refine List.Nodup.filterMap ?_ (forgotten_nodup cache)
  intro id other key atId atOther
  exact sound.injective id other key atId atOther

private theorem sound_finished (sound : Sound history) (enough : history.assigned + assignments history.cache < 2 ^ 32) :
    Sound (history.step .finishRound) := by
  have room : history.cache.table.next.toNat + assignments history.cache < 2 ^ 32 := by rw [sound.counted]; exact enough
  obtain ⟨-, next, -⟩ := swept_spec history.cache
  obtain ⟨-, extended⟩ := outcome_spec sound.table room
  have grown : history.cache.table.next ≤ (outcome numeric history.cache).table.next := by
    rw [UInt32.le_iff_toNat_le, extended.counted, next]
    omega
  -- what was retired before is not in the new table
  have oldGone (event : Event K) (member : event ∈ history.log) (key : UInt32) (retires : Retires event key) (id : K) :
      (outcome numeric history.cache).table.keys.get id ≠ some key := by
    obtain ⟨bounded, absent⟩ := sound.retired event member key retires
    intro held
    rcases outcome_origin sound.table room held with ⟨-, before⟩ | above
    · exact absent id before
    · exact absurd bounded (not_le.mpr above)
  have sentHeld (id : K) (key : UInt32) (member : (id, key) ∈ sentKeys history.cache) :
      (outcome numeric history.cache).table.keys.get id = some key := ((mem_sentKeys sound.table room).mp member).2
  refine ⟨extended.sound, ?_, ?_, ?_, ?_, ?_⟩
  · show (outcome numeric history.cache).table.next.toNat = history.assigned + assignments history.cache
    rw [extended.counted, next, sound.counted]
    rfl
  · intro id key held
    refine List.mem_append.mpr ?_
    by_cases changed : id ∈ history.cache.changed.entries.map Prod.fst
    · right
      refine List.mem_append_right _ (List.mem_map.mpr ⟨(id, key), ?_, rfl⟩)
      exact (mem_sentKeys sound.table room).mpr ⟨changed, held⟩
    · left
      have before : (swept history.cache).keys.get id = some key := by
        rw [← extended.others id changed]
        exact held
      exact sound.wired id key (swept_kept before).2
  · intro event member key retires
    rcases List.mem_append.mp member with old | new
    · exact ⟨le_trans (sound.retired event old key retires).1 grown, oldGone event old key retires⟩
    · rcases List.mem_append.mp new with removed | sent
      · obtain ⟨other, found, rfl⟩ := List.mem_map.mp removed
        have named : other = key := retires
        subst named
        obtain ⟨user, -, before⟩ := mem_removed.mp found
        exact ⟨le_trans (sound.table.bounded user other before) grown, removed_gone sound.table room found⟩
      · obtain ⟨pair, -, rfl⟩ := List.mem_map.mp sent
        exact retires.elim
  · refine List.pairwise_append.mpr ⟨sound.ordered, List.pairwise_append.mpr ⟨?_, ?_, ?_⟩, ?_⟩
    · refine List.pairwise_map.mpr ((removed_nodup sound.table).imp ?_)
      intro key other different found retires mentions
      exact different (retires.trans mentions.symm)
    · refine List.pairwise_map.mpr (List.pairwise_of_forall ?_)
      intro pair other key retires
      exact retires.elim
    · intro early removed late sent key retires mentions
      obtain ⟨gone, found, rfl⟩ := List.mem_map.mp removed
      obtain ⟨⟨id, handle⟩, member, rfl⟩ := List.mem_map.mp sent
      have same : gone = handle := Eq.trans retires (Eq.symm mentions)
      exact removed_gone sound.table room found id (same ▸ sentHeld id handle member)
    · intro early old late new key retires mentions
      rcases List.mem_append.mp new with removed | sent
      · obtain ⟨gone, found, rfl⟩ := List.mem_map.mp removed
        have named : gone = key := mentions
        subst named
        obtain ⟨user, -, before⟩ := mem_removed.mp found
        exact (sound.retired early old gone retires).2 user before
      · obtain ⟨⟨id, handle⟩, member, rfl⟩ := List.mem_map.mp sent
        have named : handle = key := mentions
        subst named
        exact oldGone early old handle retires id (sentHeld id handle member)
  · refine sentBefore_append sound.earlier ?_
    intro key member
    rcases List.mem_append.mp member with removed | sent
    · obtain ⟨gone, found, same⟩ := List.mem_map.mp removed
      cases same
      obtain ⟨user, -, before⟩ := mem_removed.mp found
      exact ⟨user, sound.wired user key before⟩
    · obtain ⟨pair, -, impossible⟩ := List.mem_map.mp sent
      cases impossible

private theorem sound_step (sound : Sound history) (op : Op K) (enough : (history.step op).assigned < 2 ^ 32) :
    Sound (history.step op) := by
  have quiet {op : Op K} (table : (step numeric op history.cache).table = history.cache.table) (given : handlesGiven op history.cache = 0)
      (silent : events op history.cache = []) : Sound (history.step op) := by
    refine sound_cleared sound (fun _ => False) given (by rw [table]) ?_ (by simp [silent])
    intro id key held
    rw [table] at held
    exact ⟨held, fun impossible => impossible⟩
  cases op with
  | beginRound scope => exact quiet rfl rfl rfl
  | write id field value =>
    refine quiet ?_ rfl rfl
    simp only [step, write]
    split <;> rfl
  | keep id => exact quiet rfl rfl rfl
  | finishRound => exact sound_finished sound enough
  | clear =>
    refine sound_cleared sound (fun _ => True) rfl rfl (by simp [step, clear]) ?_
    intro event member
    obtain ⟨⟨id, key⟩, found, rfl⟩ := List.mem_map.mp member
    exact ⟨id, key, rfl, OrdMap.mem_entries.mp found, trivial⟩
  | clearScope scope =>
    refine sound_cleared sound (fun id => (history.cache.entries.get id).map SEntry.scope = some scope) rfl rfl ?_ ?_
    · intro id key held
      simp only [step, clear_scope, OrdMap.get_filter, Option.filter_eq_some_iff] at held
      exact ⟨held.1, by simpa using held.2⟩
    · intro event member
      obtain ⟨⟨id, key⟩, found, rfl⟩ := List.mem_map.mp member
      have held := OrdMap.mem_entries.mp found
      rw [OrdMap.get_filter, Option.filter_eq_some_iff] at held
      exact ⟨id, key, rfl, held.1, by simpa using held.2⟩

private theorem assigned_mono (ops : List (Op K)) (history : History K) :
    history.assigned ≤ (ops.foldl History.step history).assigned := by
  induction ops generalizing history with
  | nil => exact le_refl _
  | cons op rest ih => exact le_trans (Nat.le_add_right _ _) (ih (history.step op))

private theorem sound_run {ops : List (Op K)} (sound : Sound history)
    (few : (ops.foldl History.step history).assigned < 2 ^ 32) : Sound (ops.foldl History.step history) := by
  induction ops generalizing history with
  | nil => exact sound
  | cons op rest ih => exact ih (sound_step sound op (lt_of_le_of_lt (assigned_mono rest _) few)) few

/-! ## Over a whole life -/

/-- Handles name one id, for good. -/
structure NeverReused (history : History K) : Prop where
  injective : ∀ id other key, history.cache.table.keys.get id = some key → history.cache.table.keys.get other = some key → id = other
  bounded : ∀ id key, history.cache.table.keys.get id = some key → key ≤ history.cache.table.next
  wired : ∀ id key, history.cache.table.keys.get id = some key → Event.sent id key ∈ history.log
  sent_before : SentBefore history.log
  removed_once : ∀ (place other : Nat) (key : UInt32), history.log[place]? = some (Event.removed key) →
    history.log[other]? = some (Event.removed key) → place = other
  never_again : ∀ (early late : Nat) (event : Event K) (key : UInt32) (id : K), early < late →
    history.log[early]? = some event → Retires event key → history.log[late]? ≠ some (Event.sent id key)

/-- In every state a numeric cache can reach, no handle is ever used again. -/
theorem handles_never_reused (ops : List (Op K)) (few : (run ops).assigned < 2 ^ 32) : NeverReused (run ops) := by
  have sound : Sound (run ops) := sound_run sound_start few
  have apart (early late : Nat) (first second : Event K) (less : early < late) (atEarly : (run ops).log[early]? = some first)
      (atLate : (run ops).log[late]? = some second) : Apart first second := by
    obtain ⟨earlyInside, rfl⟩ := List.getElem?_eq_some_iff.mp atEarly
    obtain ⟨lateInside, rfl⟩ := List.getElem?_eq_some_iff.mp atLate
    exact List.pairwise_iff_getElem.mp sound.ordered early late earlyInside lateInside less
  refine ⟨sound.table.injective, sound.table.bounded, sound.wired, sound.earlier, ?_, ?_⟩
  · intro place other key atPlace atOther
    rcases Nat.lt_trichotomy place other with less | same | more
    · exact absurd rfl (apart place other _ _ less atPlace atOther key rfl)
    · exact same
    · exact absurd rfl (apart other place _ _ more atOther atPlace key rfl)
  · intro early late event key id less atEarly retires atLate
    exact apart early late _ _ less atEarly atLate key retires rfl

theorem handles_never_reused_reappearing :
    NeverReused (run [.beginRound 1, .write (7 : UInt64) 1 ⟨VAR_TYPE_UINT, [5]⟩, .finishRound, .beginRound 1, .finishRound,
      .beginRound 1, .write 7 1 ⟨VAR_TYPE_UINT, [5]⟩, .finishRound, .clearScope 1]) :=
  handles_never_reused _ (by decide)

end History

end TaskExplorer.CacheHandles
