import TaskExplorer.HelperClient

/-!
# What arrives at the helper and at the GUI

A request of parameters under ASCII names is found by the helper as it was packed, and
what the helper replies becomes the `QVariant` that has the same texts, numbers and bytes
under the same names.
-/

namespace TaskExplorer.HelperReads
open Codec OrderedMap VariantFormat VariantContainer
open VariantValue (load load_ok_iff)
open HelperCommand hiding find
open HelperServer HelperClient
open IpcSocket (get_int)
open VariantCache (cut cut_short)
set_option linter.unusedSimpArgs false

/-! ## Texts -/

theorem word_injective : Function.Injective word := by
  apply List.map_injective_iff.mpr
  intro left right same
  have value := congrArg UInt16.toNat same
  simp only [UInt8.toNat_toUInt16] at value
  exact UInt8.toNat_inj.mp value

theorem wide_flatMap (points : List UInt32) : wide (points.flatMap (fun w => leBytes 4 w.toNat)) = points := by
  induction points with
  | nil => rfl
  | cons w rest ih =>
    have four : ∃ a b c d, leBytes 4 w.toNat = [a, b, c, d] := ⟨_, _, _, _, rfl⟩
    obtain ⟨a, b, c, d, spelled⟩ := four
    have value : leNat [a, b, c, d] = w.toNat := by
      rw [← spelled]
      exact leNat_leBytes_of_lt w.toNat_lt
    simp [List.flatMap_cons, spelled, wide, value, ih]

theorem wstr_to_ascii_map (bytes : Bytes) : wstr_to_ascii (bytes.map UInt8.toUInt32) = bytes := by
  unfold wstr_to_ascii
  rw [List.map_map]
  conv_rhs => rw [← List.map_id bytes]
  apply List.map_congr_left
  intro byte _
  have low : byte.toUInt32 ≤ 0xff := by
    rw [UInt32.le_iff_toNat_le, UInt8.toNat_toUInt32]
    have bound := byte.toNat_lt
    simp
    omega
  simp [low]

variable {qt : Qt}

theorem to_string_from_string (documented : Documented qt) {bytes : Bytes} (ascii : Ascii bytes) :
    to_string (from_string qt (word bytes)) = .ok bytes := by
  have type : (from_string qt (word bytes)).type = VAR_TYPE_UNICODE := rfl
  have payload : (from_string qt (word bytes)).payload = (bytes.map UInt8.toUInt32).flatMap (fun w => leBytes 4 w.toNat) := by
    simp only [from_string, documented.toStdWString_ascii bytes ascii]
  have plain : ¬ (VAR_TYPE_UNICODE = VAR_TYPE_ASCII ∨ VAR_TYPE_UNICODE = VAR_TYPE_BYTES) := by decide
  simp only [to_string, to_wstring, type, plain, if_false, or_true, if_true, payload, wide_flatMap, wstr_to_ascii_map]

theorem local8Bit_word_iff (documented : Documented qt) (bytes : Bytes) : qt.fromLocal8Bit bytes = word bytes ↔ Ascii bytes := by
  rw [documented.local_utf8]
  constructor
  · intro same
    by_contra beyond
    rcases documented.fromUtf8_beyond bytes beyond with shorter | replaced
    · rw [same] at shorter
      simp [word] at shorter
    · rw [same] at replaced
      obtain ⟨byte, -, unit⟩ := List.mem_map.mp replaced
      have value := congrArg UInt16.toNat unit
      rw [UInt8.toNat_toUInt16] at value
      have bound := byte.toNat_lt
      simp at value
      omega
  · exact documented.fromUtf8_ascii bytes

/-! ## Maps -/

section Filled
variable {K V : Type} [LinearOrder K]

/-- No key is there with two values. -/
def Single (pairs : List (K × V)) : Prop := ∀ left ∈ pairs, ∀ right ∈ pairs, left.1 = right.1 → left.2 = right.2

variable {pairs : List (K × V)}

theorem find_filled (single : Single pairs) {key : K} {value : V} :
    find key (filled pairs) = some value ↔ (key, value) ∈ pairs := by
  -- The last pair under a key is the one kept.
  have grow (kept : List (K × V)) : find key (pairs.foldl (fun kept pair => put pair.1 pair.2 kept) kept) = some value ↔
      (key, value) ∈ pairs ∨ (∀ pair ∈ pairs, pair.1 ≠ key) ∧ find key kept = some value := by
    induction pairs generalizing kept with
    | nil => simp
    | cons pair rest ih =>
      obtain ⟨other, old⟩ := pair
      have behind : Single rest := fun left member right among =>
        single left (List.mem_cons_of_mem _ member) right (List.mem_cons_of_mem _ among)
      rw [List.foldl_cons, ih behind, find_put]
      by_cases here : other = key
      · subst here
        by_cases again : ∃ pair ∈ rest, pair.1 = other
        · obtain ⟨pair, member, same⟩ := again
          have equal : pair.2 = old := single pair (List.mem_cons_of_mem _ member) (other, old) (by simp) same
          have first : (other, old) ∈ rest := by
            rw [← same, ← equal]
            exact member
          have elsewhere : ¬ ∀ pair ∈ rest, pair.1 ≠ other := fun none => none pair member same
          simp only [elsewhere, false_and, or_false, List.mem_cons]
          constructor
          · exact fun later => .inl (.inr later)
          · rintro ((atHead | later) | both)
            · rw [atHead]
              exact first
            · exact later
            · exact absurd rfl (both.1 (other, old) (by simp))
        · have elsewhere : ∀ pair ∈ rest, pair.1 ≠ other := fun pair member same => again ⟨pair, member, same⟩
          have absent : (other, value) ∉ rest := fun member => elsewhere _ member rfl
          simp only [absent, false_or, if_true, Option.some.injEq, List.mem_cons, Prod.mk.injEq, true_and, or_false]
          exact ⟨fun found => .inl found.2.symm, fun stated => ⟨elsewhere, (stated.resolve_right fun both => both.1 (other, old) (.inl rfl) rfl).symm⟩⟩
      · simp [here, Ne.symm here, @eq_comm _ key other]
  simpa [filled] using grow []

theorem sorted_filled (pairs : List (K × V)) : Sorted (filled pairs) := by
  have grow (kept : List (K × V)) (sorted : Sorted kept) : Sorted (pairs.foldl (fun kept pair => put pair.1 pair.2 kept) kept) := by
    induction pairs generalizing kept with
    | nil => exact sorted
    | cons pair rest ih => exact ih _ (sorted_put sorted)
  exact grow [] List.Pairwise.nil

theorem single_of_sorted (sorted : Sorted pairs) : Single pairs := by
  intro left member right among same
  have found := find_of_mem sorted (show (left.1, left.2) ∈ pairs from member)
  rw [same, find_of_mem sorted (show (right.1, right.2) ∈ pairs from among)] at found
  exact (Option.some.inj found).symm

theorem mem_of_filled {pair : K × V} (member : pair ∈ filled pairs) : pair ∈ pairs := by
  have grow : ∀ kept : List (K × V), pair ∈ pairs.foldl (fun kept pair => put pair.1 pair.2 kept) kept → pair ∈ kept ∨ pair ∈ pairs := by
    clear member
    induction pairs with
    | nil => exact fun kept member => .inl member
    | cons first rest ih =>
      intro kept member
      rcases ih _ member with before | later
      · rcases mem_put before with rfl | old
        · exact .inr (by simp)
        · exact .inl old
      · exact .inr (List.mem_cons_of_mem _ later)
  simpa using grow [] member

theorem mem_filled (single : Single pairs) {pair : K × V} : pair ∈ filled pairs ↔ pair ∈ pairs :=
  ⟨fun member => (find_filled single).mp (find_of_mem (sorted_filled pairs) member),
    fun member => find_mem ((find_filled single).mpr member)⟩

theorem filled_sorted (sorted : Sorted pairs) : filled pairs = pairs := by
  have grow (before after : List (K × V)) (whole : Sorted (before ++ after)) :
      after.foldl (fun kept pair => put pair.1 pair.2 kept) before = before ++ after := by
    induction after generalizing before with
    | nil => simp
    | cons pair rest ih =>
      have last : ∀ other ∈ before, other.1 < pair.1 := fun other member => (List.pairwise_append.mp whole).2.2 other member pair (by simp)
      rw [List.foldl_cons, put_append last, ih (before ++ [pair]) (by simpa using whole)]
      simp
  exact grow [] pairs sorted

end Filled

/-! ## What a packet becomes -/

def Becomes (qt : Qt) (packed : Packed) (value : QVariant) : Prop :=
  ∀ fuel, packed.payload.length < fuel → to_qvariant qt fuel packed = .ok value

/-- What `ToQVariant` makes of it. -/
def shown (qt : Qt) (packed : Packed) : QVariant :=
  match to_qvariant qt (packed.payload.length + 1) packed with
  | .ok value => value
  | .error _ => .invalid

variable {packed : Packed} {command : String}

theorem Becomes.shown_eq {value : QVariant} (becomes : Becomes qt packed value) : shown qt packed = value := by
  rw [shown, becomes _ (Nat.lt_succ_self _)]

theorem becomes_plain {value : QVariant} (flat : kindOf packed.type = none) (plain : to_plain qt packed = .ok value) :
    Becomes qt packed value := by
  intro fuel enough
  obtain ⟨fuel, rfl⟩ := Nat.exists_eq_add_of_lt enough
  simp only [to_qvariant, flat, plain]

theorem becomes_bytes (data : Bytes) : Becomes qt ⟨VAR_TYPE_BYTES, data⟩ (.byteArray data) := becomes_plain rfl rfl

theorem becomes_ascii (target : Bytes) : Becomes qt ⟨VAR_TYPE_ASCII, target⟩ (.string (qt.fromLatin1 target)) := becomes_plain rfl rfl

theorem becomes_uint64 {value : Nat} (fits : value < 2 ^ 64) : Becomes qt (uint64 value) (.uLongLong value) := by
  have number : leNat (leBytes 8 value) = value := leNat_leBytes_of_lt fits
  exact becomes_plain rfl (by simp [to_plain, uint64, number, leBytes_length, VAR_TYPE_UINT, VAR_TYPE_BYTES, VAR_TYPE_UNICODE,
    VAR_TYPE_UTF8, VAR_TYPE_ASCII, VAR_TYPE_SINT])

theorem mapM_ok {α β : Type} {read : α → Except CException β} {result : α → β} {items : List α}
    (each : ∀ item ∈ items, read item = .ok (result item)) : items.mapM read = .ok (items.map result) := by
  induction items with
  | nil => rfl
  | cons item rest ih =>
    have more := ih (fun other member => each other (List.mem_cons_of_mem _ member))
    simp only [List.mapM_cons, each item (by simp), more, bind, Except.bind, pure, Except.pure, List.map_cons]

variable {entries : List (Key × Packed)} {parameters : List Parameter}

theorem children_shown {kept : List (Key × Packed)} (kept_from : ∀ pair ∈ kept, ∃ key, (key, pair.2) ∈ entries)
    (becomes : ∀ pair ∈ entries, ∃ value, Becomes qt pair.2 value) {fuel : Nat}
    (enough : (entries.flatMap write_entry).length ≤ fuel) :
    kept.mapM (fun pair => to_qvariant qt fuel pair.2) = .ok (kept.map (fun pair => shown qt pair.2)) := by
  refine mapM_ok fun pair member => ?_
  obtain ⟨key, written⟩ := kept_from pair member
  obtain ⟨value, reads⟩ := becomes _ written
  rw [reads.shown_eq]
  exact reads fuel ((payload_lt_flatMap written).trans_le enough)

theorem load_finish {kind : Kind} (writable : Writable kind entries) :
    load kind (finish kind entries).payload = .ok (collect kind entries) := by
  rw [load_ok_iff, raw_entries_finish writable]
  exact ⟨⟨[], rfl⟩, rfl⟩

theorem becomes_list (writable : Writable .list entries) (becomes : ∀ pair ∈ entries, ∃ value, Becomes qt pair.2 value)
    : Becomes qt (finish .list entries) (.list (entries.map (fun pair => shown qt pair.2))) := by
  intro fuel enough
  obtain ⟨fuel, rfl⟩ := Nat.exists_eq_add_of_lt enough
  have kept : collect .list entries = entries := by
    refine collect_of_arranged ⟨fun pair member => ⟨(writable.fits pair member).1, ?_⟩, fun keyed => absurd rfl keyed⟩
    obtain ⟨key, variant⟩ := pair
    cases key with
    | item => rfl
    | name text => exact absurd (writable.fits _ member).1 id
    | id index => exact absurd (writable.fits _ member).1 id
  have length : (finish .list entries).payload.length = (entries.flatMap write_entry).length := by
    rw [finish, cut_short writable.short]
  have enough : (entries.flatMap write_entry).length ≤ (finish .list entries).payload.length + fuel := by omega
  have children := children_shown (fun pair member => ⟨pair.1, member⟩) becomes enough
  have type : kindOf (finish .list entries).type = some .list := rfl
  simp only [to_qvariant, type, load_finish writable, kept, children, bind, Except.bind, pure, Except.pure]

/-- The entries of a map that is written: each is under an ASCII name, and a name has
    one value. -/
structure Replies (qt : Qt) (entries : List (Key × Packed)) : Prop where
  writable : Writable .map entries
  names : ∀ pair ∈ entries, ∃ name, pair.1 = .name name ∧ Ascii name ∧ (0 : UInt8) ∉ name
  single : Single entries
  becomes : ∀ pair ∈ entries, ∃ value, Becomes qt pair.2 value

def shown_entries (qt : Qt) (entries : List (Key × Packed)) : List (QString × QVariant) :=
  filled ((collect .map entries).map (fun pair => (key_string qt pair.1, shown qt pair.2)))

theorem becomes_map (replies : Replies qt entries) :
    Becomes qt (finish .map entries) (.map (shown_entries qt entries)) := by
  intro fuel enough
  obtain ⟨fuel, rfl⟩ := Nat.exists_eq_add_of_lt enough
  have length : (finish .map entries).payload.length = (entries.flatMap write_entry).length := by
    rw [finish, cut_short replies.writable.short]
  have enough : (entries.flatMap write_entry).length ≤ (finish .map entries).payload.length + fuel := by omega
  have kept_from : ∀ pair ∈ collect .map entries, ∃ key, (key, pair.2) ∈ entries :=
    fun pair member => (mem_collect member).imp fun key stored => stored.1
  have children := children_shown kept_from replies.becomes enough
  have type : kindOf (finish .map entries).type = some .map := rfl
  simp only [to_qvariant, type, load_finish replies.writable, children, bind, Except.bind, pure, Except.pure, List.zip_map']
  rfl

theorem mem_collect_map (replies : Replies qt entries) {pair : Key × Packed} :
    pair ∈ collect .map entries ↔ pair ∈ entries := by
  have stored : ∀ pair ∈ entries, pair.1.stored = pair.1 := by
    intro pair member
    obtain ⟨name, key, -, nul⟩ := replies.names pair member
    rw [key, Key.stored, c_str_of_plain nul]
  constructor
  · intro member
    obtain ⟨key, written, kept⟩ := mem_collect member
    have same : pair.1 = key := kept.trans (stored _ written)
    rwa [← same] at written
  · intro member
    have found : find pair.1 (collect .map entries) = some pair.2 := by
      rw [find_collect (by decide)]
      cases first : entries.find? (fun other => other.1.stored = pair.1) with
      | none => exact absurd (stored pair member) (by simpa using List.find?_eq_none.mp first pair member)
      | some other =>
        have same : other.1.stored = pair.1 := by simpa using List.find?_some first
        have among := List.mem_of_find?_eq_some first
        rw [stored other among] at same
        rw [Option.map_some, replies.single other among pair member same]
    exact find_mem found

theorem mem_shown_entries (documented : Documented qt) (replies : Replies qt entries) {string : QString}
    {value : QVariant} :
    (string, value) ∈ shown_entries qt entries ↔ ∃ name packed, (.name name, packed) ∈ entries ∧ word name = string ∧ shown qt packed = value := by
  have spelled : ∀ pair ∈ entries, ∃ name, pair.1 = .name name ∧ key_string qt pair.1 = word name := by
    intro pair member
    obtain ⟨name, key, ascii, -⟩ := replies.names pair member
    exact ⟨name, key, by rw [key, key_string, documented.fromUtf8_ascii name ascii]⟩
  have single : Single ((collect .map entries).map (fun pair => (key_string qt pair.1, shown qt pair.2))) := by
    simp only [Single, List.mem_map, forall_exists_index, and_imp, forall_apply_eq_imp_iff₂, mem_collect_map replies]
    intro left member right among same
    obtain ⟨leftName, leftKey, leftSpelled⟩ := spelled left member
    obtain ⟨rightName, rightKey, rightSpelled⟩ := spelled right among
    rw [leftSpelled, rightSpelled] at same
    have keys : left.1 = right.1 := by rw [leftKey, rightKey, word_injective same]
    rw [replies.single left member right among keys]
  rw [shown_entries, mem_filled single]
  simp only [List.mem_map, mem_collect_map replies, Prod.mk.injEq]
  constructor
  · rintro ⟨pair, member, rfl, rfl⟩
    obtain ⟨name, key, text⟩ := spelled pair member
    exact ⟨name, pair.2, key ▸ member, text.symm, rfl⟩
  · rintro ⟨name, packed, member, rfl, rfl⟩
    obtain ⟨other, key, text⟩ := spelled _ member
    cases key
    exact ⟨_, member, text, rfl⟩

/-! ## The request -/

/-- ASCII letters, none of them a NUL, and as many as the name of an entry can have. -/
def plain (bytes : Bytes) : Bool := bytes.length < 256 && bytes.all (fun byte => 0 < byte.toNat && byte.toNat < 128)

theorem plain_iff {bytes : Bytes} : plain bytes = true ↔ bytes.length < 256 ∧ Ascii bytes ∧ (0 : UInt8) ∉ bytes := by
  simp only [plain, Bool.and_eq_true, decide_eq_true_eq, List.all_eq_true, Ascii]
  refine and_congr_right fun _ => ⟨?_, ?_⟩
  · intro each
    refine ⟨fun byte member => UInt8.lt_iff_toNat_lt.mpr (each byte member).2, fun member => ?_⟩
    exact absurd (each 0 member).1 (by decide)
  · rintro ⟨ascii, nul⟩ byte member
    refine ⟨Nat.pos_of_ne_zero fun zero => nul ?_, UInt8.lt_iff_toNat_lt.mp (ascii byte member)⟩
    rwa [UInt8.toNat_inj.mp (zero.trans rfl : byte.toNat = (0 : UInt8).toNat)] at member

/-- A name of the source, and a value with what it is packed as. -/
structure Parameter where
  literal : String
  value : QVariant
  packed : Packed

/-- The parameters are under plain names in their order, and are packed as said. -/
structure Packs (qt : Qt) (parameters : List Parameter) : Prop where
  names : ∀ parameter ∈ parameters, plain (text parameter.literal) = true
  sorted : Sorted (parameters.map (fun parameter => named parameter.literal parameter.packed))
  values : ∀ parameter ∈ parameters, from_qvariant qt parameter.value = .ok parameter.packed
  bare : ∀ parameter ∈ parameters, parameter.packed.type ≠ VAR_TYPE_EMPTY

def asked (parameters : List Parameter) : List (QString × QVariant) :=
  parameters.map (fun parameter => (name parameter.literal, parameter.value))

def packedEntries (parameters : List Parameter) : List (Key × Packed) :=
  parameters.map (fun parameter => named parameter.literal parameter.packed)

theorem from_map (documented : Documented qt) (packs : Packs qt parameters) :
    from_qvariant qt (.map (asked parameters)) = .ok ⟨VAR_TYPE_MAP, (packedEntries parameters).flatMap write_entry⟩ := by
  have entries : from_entries qt (asked parameters) = .ok (packedEntries parameters) := by
    have names := packs.names
    have values := packs.values
    clear packs
    induction parameters with
    | nil => rfl
    | cons parameter rest ih =>
      obtain ⟨-, ascii, nul⟩ := plain_iff.mp (names parameter (by simp))
      have more := ih (fun other member => names other (List.mem_cons_of_mem _ member)) (fun other member => values other (List.mem_cons_of_mem _ member))
      simp only [asked, packedEntries, HelperClient.name] at more
      simp only [asked, packedEntries, List.map_cons, from_entries, values parameter (by simp), HelperClient.name, more,
        documented.toUtf8_ascii _ ascii, c_str_of_plain nul, bind, Except.bind, pure, Except.pure]
      rfl
  have sorted : filled (packedEntries parameters) = packedEntries parameters := filled_sorted packs.sorted
  simp only [from_qvariant, entries, sorted, bind, Except.bind, pure, Except.pure]

theorem packed_writable (packs : Packs qt parameters)
    (short : ((packedEntries parameters).flatMap write_entry).length < 2 ^ 32) :
    Writable .map (packedEntries parameters) where
  fits := by
    intro pair member
    have small := payload_lt_flatMap member
    obtain ⟨parameter, listed, rfl⟩ := List.mem_map.mp member
    obtain ⟨length, -, -⟩ := plain_iff.mp (packs.names parameter listed)
    exact named_fits length ⟨fun empty => absurd empty (packs.bare parameter listed), small.trans short⟩
  short := short

theorem finish_short {kind : Kind} (short : (entries.flatMap write_entry).length < 2 ^ 32) :
    finish kind entries = ⟨kind.type, entries.flatMap write_entry⟩ := by
  rw [finish, cut_short short]

theorem find_parameter (packs : Packs qt parameters)
    (short : ((packedEntries parameters).flatMap write_entry).length < 2 ^ 32) {parameter : Parameter}
    (member : parameter ∈ parameters) :
    HelperCommand.find (finish .map (packedEntries parameters)) parameter.literal = .ok parameter.packed := by
  have among : named parameter.literal parameter.packed ∈ packedEntries parameters := List.mem_map_of_mem member
  have kept := find_of_mem packs.sorted among
  rw [find_finish (packed_writable packs short)]
  cases first : (packedEntries parameters).find? (fun pair => pair.1 = .name (text parameter.literal)) with
  | none => exact absurd (decide_eq_true rfl) (List.find?_eq_none.mp first _ among)
  | some other =>
    have key : other.1 = .name (text parameter.literal) := by simpa using List.find?_some first
    have found := find_of_mem packs.sorted (show (other.1, other.2) ∈ _ from List.mem_of_find?_eq_some first)
    rw [key] at found
    rw [Option.map_some, Option.getD_some, Option.some.inj (found.symm.trans kept)]

/-- The map that `LinuxHelperCall` sends. -/
def request (qt : Qt) (command : String) (parameters : List Parameter) : List Parameter :=
  [⟨"Command", .string (name command), from_string qt (name command)⟩,
    ⟨"Parameters", .map (asked parameters), ⟨VAR_TYPE_MAP, (packedEntries parameters).flatMap write_entry⟩⟩]

theorem request_packs (documented : Documented qt) (packs : Packs qt parameters) (command : String) :
    Packs qt (request qt command parameters) where
  names := by
    have literals : plain (text "Command") = true ∧ plain (text "Parameters") = true := by decide
    simpa [request] using literals
  sorted := by
    have before : Key.name (text "Command") < Key.name (text "Parameters") := by decide
    simpa [request, Sorted, named] using before
  values := by
    simpa [request] using (⟨rfl, from_map documented packs⟩ :
      from_qvariant qt (.string (name command)) = .ok (from_string qt (name command)) ∧ _)
  bare := by
    have types : (from_string qt (name command)).type ≠ VAR_TYPE_EMPTY ∧ VAR_TYPE_MAP ≠ VAR_TYPE_EMPTY := by
      exact ⟨(by decide : VAR_TYPE_UNICODE ≠ VAR_TYPE_EMPTY), by decide⟩
    simpa [request] using types

/-! ## The way there and back -/

theorem to_packet_positive (packed : Packed) : 0 < (to_packet packed).length := by
  rw [to_packet, List.length_append, packet_header_length]
  split_ifs <;> omega

theorem framed_length (small : (to_packet packed).length < 2 ^ 32) :
    leNat (leBytes 4 ((to_packet packed).length % 2 ^ 32)) = (to_packet packed).length := by
  rw [Nat.mod_eq_of_lt small]
  exact leNat_leBytes_of_lt small

theorem recv_send (encodable : Encodable packed) (fits : (to_packet packed).length ≤ MaxPacketSize) :
    recv_variant (send_xvariant packed) = .ok (some packed) := by
  have positive := to_packet_positive packed
  have small : (to_packet packed).length < 2 ^ 32 := by
    simp only [MaxPacketSize] at fits
    omega
  have four := leBytes_length 4 ((to_packet packed).length % 2 ^ 32)
  have framed : recv_frame (send_xvariant packed) = some (to_packet packed) := by
    have long : ¬ (send_xvariant packed).length < 4 := by
      simp [send_xvariant, four]
    have front : (send_xvariant packed).take 4 = leBytes 4 ((to_packet packed).length % 2 ^ 32) := by
      rw [send_xvariant, List.take_left' four]
    have back : (send_xvariant packed).drop 4 = to_packet packed := by
      rw [send_xvariant, List.drop_left' four]
    have sane : ¬ ((to_packet packed).length = 0 ∨ (to_packet packed).length > MaxPacketSize) := by omega
    simp only [recv_frame, long, front, back, framed_length small, sane, lt_irrefl, if_false, List.take_length]
  have decoded := from_packet_to_packet packed encodable [] 0
  rw [List.append_nil] at decoded
  simp only [recv_variant, framed, decoded, bind, Except.bind, pure, Except.pure]

theorem recv_xvariant_send (encodable : Encodable packed) (short : (to_packet packed).length < 2 ^ 32) :
    recv_xvariant qt (send_variant packed) = to_qvariant qt (packed.payload.length + 1) packed := by
  have four := leBytes_length 4 ((to_packet packed).length % 2 ^ 32)
  have whole : (to_packet packed).take ((to_packet packed).length % 2 ^ 32) = to_packet packed := by
    rw [Nat.mod_eq_of_lt short, List.take_length]
  have long : ¬ (send_variant packed).length < 4 := by
    simp [send_variant, four]
  have front : (send_variant packed).take 4 = leBytes 4 ((to_packet packed).length % 2 ^ 32) := by
    rw [send_variant, List.take_left' four]
  have back : (send_variant packed).drop 4 = to_packet packed := by
    rw [send_variant, List.drop_left' four, whole]
  have decoded := from_packet_to_packet packed encodable [] 0
  rw [List.append_nil] at decoded
  simp only [recv_xvariant, long, front, back, framed_length short, lt_irrefl, if_false, List.take_length, decoded, bind, Except.bind]

/-- The request fits in a packet that the helper takes. -/
def Sendable (qt : Qt) (command : String) (parameters : List Parameter) : Prop :=
  (to_packet ⟨VAR_TYPE_MAP, (packedEntries (request qt command parameters)).flatMap write_entry⟩).length ≤ MaxPacketSize

theorem sendable_short (sendable : Sendable qt command parameters) :
    ((packedEntries (request qt command parameters)).flatMap write_entry).length < 2 ^ 32 := by
  simp only [Sendable, to_packet, List.length_append, MaxPacketSize] at sendable
  omega

theorem sendable_inner (sendable : Sendable qt command parameters) :
    ((packedEntries parameters).flatMap write_entry).length < 2 ^ 32 := by
  have member : named "Parameters" ⟨VAR_TYPE_MAP, (packedEntries parameters).flatMap write_entry⟩ ∈ packedEntries (request qt command parameters) := by
    simp [packedEntries, request]
  exact (payload_lt_flatMap member).trans (sendable_short sendable)

theorem process_request (documented : Documented qt) (packs : Packs qt parameters) (ascii : Ascii (text command))
    (sendable : Sendable qt command parameters) (kernel : Kernel) :
    process_command kernel (finish .map (packedEntries (request qt command parameters))) =
      run_command kernel (finish .map (packedEntries parameters)) (command_of (text command)) := by
  have whole := request_packs documented packs command
  have commandFound := find_parameter whole (sendable_short sendable) (List.mem_cons_self ..)
  have parametersFound := find_parameter whole (sendable_short sendable) (List.mem_cons_of_mem _ (List.mem_cons_self ..))
  have parts : request_parts (finish .map (packedEntries (request qt command parameters))) =
      .ok (some (text command, finish .map (packedEntries parameters))) := by
    refine (request_parts_map rfl).mpr ⟨_, _, _, commandFound, to_string_from_string documented ascii, parametersFound, ?_⟩
    rw [finish_short (sendable_inner sendable)]
    rfl
  simp only [process_command, parts, bind, Except.bind]

theorem send_command_eq (documented : Documented qt) (packs : Packs qt parameters) (ascii : Ascii (text command))
    (sendable : Sendable qt command parameters) {kernel : Kernel} {world : World} {action : Action}
    (taken : run_command kernel (finish .map (packedEntries parameters)) (command_of (text command)) = .ok action)
    (encodable : Encodable (action world).1) (replied : (to_packet (action world).1).length < 2 ^ 32) :
    send_command qt kernel world (.map (asked (request qt command parameters))) =
      to_qvariant qt ((action world).1.payload.length + 1) (action world).1 := by
  have writable := packed_writable (request_packs documented packs command) (sendable_short sendable)
  have fits : (to_packet (finish .map (packedEntries (request qt command parameters)))).length ≤ MaxPacketSize := by
    rw [finish_short (sendable_short sendable)]
    exact sendable
  have received := recv_send (encodable_finish writable) fits
  have served : serve_connection kernel (send_xvariant (finish .map (packedEntries (request qt command parameters)))) world =
      .ok (some (send_variant (action world).1), (action world).2) := by
    simp only [serve_connection, received, process_request documented packs ascii sendable, taken, bind, Except.bind, pure, Except.pure]
  have packed : from_qvariant qt (.map (asked (request qt command parameters))) =
      .ok (finish .map (packedEntries (request qt command parameters))) := by
    rw [from_map documented (request_packs documented packs command), finish_short (sendable_short sendable)]
    rfl
  simp only [send_command, packed, bind, Except.bind, served]
  exact recv_xvariant_send encodable replied

/-- What `LinuxHelperCall` makes of a reply. -/
def accepted (reply : QVariant) : QVariant :=
  match reply with
  | .string answer => if answer = invalid_parameters ∨ answer = unknown_command then .invalid else reply
  | _ => reply

theorem linux_helper_call_eq (documented : Documented qt) (packs : Packs qt parameters) (ascii : Ascii (text command))
    (sendable : Sendable qt command parameters) {kernel : Kernel} {world : World} {action : Action}
    (taken : run_command kernel (finish .map (packedEntries parameters)) (command_of (text command)) = .ok action)
    (encodable : Encodable (action world).1) (replied : (to_packet (action world).1).length < 2 ^ 32) {value : QVariant}
    (becomes : Becomes qt (action world).1 value) :
    linux_helper_call qt kernel world command (asked parameters) = .ok (accepted value) := by
  have sent := send_command_eq documented packs ascii sendable taken encodable replied
  rw [becomes _ (Nat.lt_succ_self _)] at sent
  have request : QVariant.map (asked (request qt command parameters)) =
      .map [(name "Command", .string (name command)), (name "Parameters", .map (asked parameters))] := rfl
  rw [request] at sent
  rw [linux_helper_call, sent]
  cases value with
  | string answer =>
    by_cases rejected : answer = invalid_parameters ∨ answer = unknown_command
    · simp [accepted, rejected, bind, Except.bind, pure, Except.pure]
    · simp [accepted, rejected, bind, Except.bind, pure, Except.pure]
  | _ => rfl

end TaskExplorer.HelperReads
