import TaskExplorer.HelperReads
import TaskExplorer.VariantBuild
import TaskExplorer.WideStrings

/-!
# `QVariant` trees

`FromQVariant` builds a variant, `ToQVariant` reads one, in memory or out of a packet.
What Qt does with texts is an input, with what its documentation says of it.
-/

namespace TaskExplorer.QVariantTrees
open Codec OrderedMap VariantFormat VariantContainer VariantValue
open WideStrings Utf8
open HelperClient (QString QVariant Qt filled to_plain key_string)
open HelperCommand (wide none_variant)
open HelperReads (mem_of_filled)
open VariantBuild (Built Keyed arrange forall₂_arrange mk_entries_built)
open VariantCache (cut cut_short)

/-! ## Texts -/

/-- The code units of some characters. -/
def utf16 (chars : List Char) : QString := (chars.flatMap (units_of .two)).map UInt32.toUInt16

def utf8Of (chars : List Char) : Bytes := chars.flatMap String.utf8EncodeChar

/-- Every surrogate of a text has its partner. -/
def WellFormed (text : QString) : Prop := ∃ chars, text = utf16 chars

/-- What Qt documents: the conversions go from one encoding of the characters to the other; what is no encoding of a character is replaced,
so that what comes out of a conversion is well-formed; and an encoding that ends too soon is read as replacement characters or not at all. -/
structure Converts (qt : Qt) : Prop where
  toUtf8 : ∀ chars, qt.toUtf8 (utf16 chars) = utf8Of chars
  toUtf8_valid : ∀ text, ∃ chars, qt.toUtf8 text = utf8Of chars
  fromUtf8 : ∀ chars part c, part <+: String.utf8EncodeChar c → part ≠ String.utf8EncodeChar c →
    ∃ count ≤ part.length, qt.fromUtf8 (utf8Of chars ++ part) = utf16 (chars ++ List.replicate count (Char.ofNat 0xFFFD))
  toStdWString : ∀ chars, qt.toStdWString (utf16 chars) = chars.map Char.val
  toStdWString_valid : ∀ text, ∃ chars : List Char, qt.toStdWString text = chars.map Char.val
  fromWCharArray : ∀ chars : List Char, qt.fromWCharArray (chars.map Char.val) = utf16 chars

/-! ## `FromQVariant` -/

section
variable (size : WCharSize) (utf8 : Bool) (qt : Qt)

/-- `toStdWString`: where `wchar_t` has two bytes it holds a code unit. -/
def to_std_wstring (text : QString) : List UInt32 :=
  match size with
  | .two => text.map UInt16.toUInt32
  | .four => qt.toStdWString text

def from_wchar_array (units : List UInt32) : QString :=
  match size with
  | .two => units.map UInt32.toUInt16
  | .four => qt.fromWCharArray units

def width : WCharSize → Nat
  | .two => 2
  | .four => 4

def wchar_bytes (units : List UInt32) : Bytes := units.flatMap (fun w => leBytes (width size) w.toNat)

def wide_two : Bytes → List UInt32
  | a :: b :: rest => UInt32.ofNat (leNat [a, b]) :: wide_two rest
  | _ => []

/-- The payload as an array of `wchar_t`. -/
def wchars (payload : Bytes) : List UInt32 :=
  match size with
  | .two => wide_two payload
  | .four => wide payload

/-- The bytes of a string, with `eUtf8` or without. -/
def string_bytes (text : QString) : Bytes := if utf8 then qt.toUtf8 text else wchar_bytes size (to_std_wstring size qt text)

def from_string (text : QString) : Packed := ⟨if utf8 then VAR_TYPE_UTF8 else VAR_TYPE_UNICODE, cut (string_bytes size utf8 qt text)⟩

/-- `SVariant::Insert` under a name, by the type that the variant has. -/
def insert_by_name (kind : Kind) (kept : List (Key × Variant)) (name : Bytes) (variant : Variant) : Except CException (List (Key × Variant)) :=
  match kind with
  | .map => .ok (store .map kept (.name (c_str name)) variant)
  | _ => .error { line := "Not a Map Variant" }

/-- `SVariant::Insert` under an index. -/
def insert_by_index (kind : Kind) (kept : List (Key × Variant)) (index : UInt32) (variant : Variant) :
    Except CException (List (Key × Variant)) :=
  match kind with
  | .index => .ok (store .index kept (.id index) variant)
  | _ => .error { line := "Not a Map Variant" }

/-- The first four bytes of a name as a number. -/
def index_of (name : QString) : UInt32 := UInt32.ofNat (leNat ((qt.toUtf8 name).take 4))

mutual
def from_qvariant : QVariant → Except CException Variant
  | .map entries => do
    let kept ← from_map [] entries
    return .opened .readWrite .map [] kept
  -- The type of a hash is set to MAP here as well.
  | .hash entries => do
    let kept ← from_hash [] entries
    return .opened .readWrite .map [] kept
  | .list items => do
    let kept ← from_list [] items
    return .opened .readWrite .list [] kept
  | .stringList items => .ok (.opened .readWrite .list [] (items.map fun text => (.item, .raw .readWrite (from_string size utf8 qt text))))
  | .string text => .ok (.raw .readWrite (from_string size utf8 qt text))
  | .byteArray bytes => .ok (.raw .readWrite ⟨VAR_TYPE_BYTES, cut bytes⟩)
  | .bool value => .ok (.raw .readWrite ⟨VAR_TYPE_UINT, [if value then 1 else 0]⟩)
  | .int value => .ok (.raw .readWrite ⟨VAR_TYPE_SINT, leBytes 4 (value % 2 ^ 32).toNat⟩)
  | .uint value => .ok (.raw .readWrite ⟨VAR_TYPE_UINT, leBytes 4 value⟩)
  | .longLong value => .ok (.raw .readWrite ⟨VAR_TYPE_SINT, leBytes 8 (value % 2 ^ 64).toNat⟩)
  | .uLongLong value => .ok (.raw .readWrite ⟨VAR_TYPE_UINT, leBytes 8 value⟩)
  | .double bits => .ok (.raw .readWrite ⟨VAR_TYPE_DOUBLE, bits⟩)
  | .invalid => .ok (.raw .readWrite none_variant)

def from_map : List (Key × Variant) → List (QString × QVariant) → Except CException (List (Key × Variant))
  | kept, [] => .ok kept
  | kept, (name, value) :: rest => do
    let temp ← from_qvariant value
    let kept ← insert_by_name .map kept (qt.toUtf8 name) temp
    from_map kept rest

def from_hash : List (Key × Variant) → List (QString × QVariant) → Except CException (List (Key × Variant))
  | kept, [] => .ok kept
  | kept, (name, value) :: rest => do
    let temp ← from_qvariant value
    let kept ← insert_by_index .map kept (index_of qt name) temp
    from_hash kept rest

def from_list : List (Key × Variant) → List QVariant → Except CException (List (Key × Variant))
  | kept, [] => .ok kept
  | kept, item :: rest => do
    let temp ← from_qvariant item
    from_list (store .list kept .item temp) rest
end

/-! ## `ToQVariant` -/

def to_leaf (packed : Packed) : Except CException QVariant :=
  if packed.type = VAR_TYPE_UNICODE then .ok (.string (from_wchar_array size qt (wchars size packed.payload)))
  else to_plain qt packed

def to_container (kind : Kind) (keys : List Key) (children : List QVariant) : QVariant :=
  match kind with
  | .list => .list children
  | .map => .map (filled ((keys.map (key_string qt)).zip children))
  | .index => .hash (filled ((keys.map (key_string qt)).zip children))

/-- A payload; there are no more levels than bytes. -/
def to_packed : Nat → Packed → Except CException QVariant
  | 0, _ => .ok .invalid
  | fuel + 1, packed =>
    match kindOf packed.type with
    | none => to_leaf size qt packed
    | some kind => do
      let entries ← load kind packed.payload
      let children ← entries.mapM (fun pair => to_packed fuel pair.2)
      return to_container qt kind (entries.map Prod.fst) children

mutual
def to_qvariant : Variant → Except CException QVariant
  | .raw _ packed => to_packed size qt (packed.payload.length + 1) packed
  | .opened _ kind _ entries => do
    let children ← to_children entries
    return to_container qt kind (entries.map Prod.fst) children
  | .writing _ _ => .error { line := "Variant is being writen to", pointer := true }

def to_children : List (Key × Variant) → Except CException (List QVariant)
  | [] => .ok []
  | (_, child) :: rest => do
    let value ← to_qvariant child
    let more ← to_children rest
    return value :: more
end

/-! ## Trees -/

mutual
/-- Something holds of every variant in a tree. -/
def Every (holds : QVariant → Prop) : QVariant → Prop
  | .map entries => holds (.map entries) ∧ EveryEntry holds entries
  | .hash entries => holds (.hash entries) ∧ EveryEntry holds entries
  | .list items => holds (.list items) ∧ EveryItem holds items
  | .stringList items => holds (.stringList items)
  | .string text => holds (.string text)
  | .byteArray bytes => holds (.byteArray bytes)
  | .bool value => holds (.bool value)
  | .int value => holds (.int value)
  | .uint value => holds (.uint value)
  | .longLong value => holds (.longLong value)
  | .uLongLong value => holds (.uLongLong value)
  | .double bits => holds (.double bits)
  | .invalid => holds .invalid

def EveryEntry (holds : QVariant → Prop) : List (QString × QVariant) → Prop
  | [] => True
  | (_, value) :: rest => Every holds value ∧ EveryEntry holds rest

def EveryItem (holds : QVariant → Prop) : List QVariant → Prop
  | [] => True
  | item :: rest => Every holds item ∧ EveryItem holds rest
end

/-- The type of the packet that a variant becomes. -/
def type_of : QVariant → VarType
  | .map _ => VAR_TYPE_MAP
  | .hash _ => VAR_TYPE_INDEX
  | .list _ => VAR_TYPE_LIST
  | .stringList _ => VAR_TYPE_LIST
  | .string _ => if utf8 then VAR_TYPE_UTF8 else VAR_TYPE_UNICODE
  | .byteArray _ => VAR_TYPE_BYTES
  | .bool _ => VAR_TYPE_UINT
  | .int _ => VAR_TYPE_SINT
  | .uint _ => VAR_TYPE_UINT
  | .longLong _ => VAR_TYPE_SINT
  | .uLongLong _ => VAR_TYPE_UINT
  | .double _ => VAR_TYPE_DOUBLE
  | .invalid => VAR_TYPE_EMPTY

def packet_size (type : VarType) (payload : Nat) : Nat := (packet_header type payload).length + payload

mutual
/-- How many bytes the payload of a variant takes. -/
def payload_size : QVariant → Nat
  | .map entries => map_size entries
  | .hash entries => hash_size entries
  | .list items => list_size items
  | .stringList items => (items.map fun text => packet_size (type_of utf8 (.string text)) (string_bytes size utf8 qt text).length).sum
  | .string text => (string_bytes size utf8 qt text).length
  | .byteArray bytes => bytes.length
  | .bool _ => 1
  | .int _ => 4
  | .uint _ => 4
  | .longLong _ => 8
  | .uLongLong _ => 8
  | .double _ => 8
  | .invalid => 0

def map_size : List (QString × QVariant) → Nat
  | [] => 0
  | (name, value) :: rest => 1 + (qt.toUtf8 name).length + packet_size (type_of utf8 value) (payload_size value) + map_size rest

def hash_size : List (QString × QVariant) → Nat
  | [] => 0
  | (_, value) :: rest => 4 + packet_size (type_of utf8 value) (payload_size value) + hash_size rest

def list_size : List QVariant → Nat
  | [] => 0
  | item :: rest => packet_size (type_of utf8 item) (payload_size item) + list_size rest
end

/-- A map is in the order of its names, the names of a hash are four ASCII letters, and a number is of its type. -/
def Possible : QVariant → Prop
  | .map entries => Sorted entries
  | .hash entries => (entries.map Prod.fst).Nodup ∧ ∀ pair ∈ entries, pair.1.length = 4 ∧ ∀ unit ∈ pair.1, unit < 0x80
  | .int value => -2 ^ 31 ≤ value ∧ value < 2 ^ 31
  | .uint value => value < 2 ^ 32
  | .longLong value => -2 ^ 63 ≤ value ∧ value < 2 ^ 63
  | .uLongLong value => value < 2 ^ 64
  | .double bits => bits.length = 8
  | .invalid => False
  | _ => True

/-- A tree of the types that `FromQVariant` knows. One single variant can not be bigger than 4 GB. -/
def Accepted (value : QVariant) : Prop := Every Possible value ∧ payload_size size utf8 qt value < 0xFFFFFFFF

/-- The number that a variant holds. -/
def number : QVariant → Option Int
  | .bool value => some (if value then 1 else 0)
  | .int value => some value
  | .uint value => some value
  | .longLong value => some value
  | .uLongLong value => some value
  | _ => none

mutual
/-- The same shape, the same keys, and leaves that are equal as numbers, strings or bytes. -/
def Same : QVariant → QVariant → Prop
  | .map entries, other => ∃ others, other = .map others ∧ SameEntries entries others
  | .hash entries, other => ∃ others order, other = .hash others ∧ order.Perm others ∧ SameEntries entries order
  | .list items, other => ∃ others, other = .list others ∧ SameItems items others
  | .stringList items, other => other = .list (items.map .string)
  | .string text, other => other = .string text
  | .byteArray bytes, other => other = .byteArray bytes
  | .bool value, other => number other = number (.bool value)
  | .int value, other => number other = number (.int value)
  | .uint value, other => number other = number (.uint value)
  | .longLong value, other => number other = number (.longLong value)
  | .uLongLong value, other => number other = number (.uLongLong value)
  | .double bits, other => other = .double bits
  | .invalid, other => other = .invalid

def SameEntries : List (QString × QVariant) → List (QString × QVariant) → Prop
  | [], others => others = []
  | (name, value) :: rest, others => ∃ other more, others = (name, other) :: more ∧ Same value other ∧ SameEntries rest more

def SameItems : List QVariant → List QVariant → Prop
  | [], others => others = []
  | item :: rest, others => ∃ other more, others = other :: more ∧ Same item other ∧ SameItems rest more
end

/-- There and back in memory. -/
def Direct (value : QVariant) : Prop :=
  ∃ variant result, from_qvariant size utf8 qt value = .ok variant ∧ to_qvariant size qt variant = .ok result ∧ Same value result

/-- There and back through a packet. -/
def Packet (value : QVariant) : Prop :=
  ∃ variant packet read after result, from_qvariant size utf8 qt value = .ok variant ∧ to_packet_variant variant = .ok packet ∧
    from_packet_variant .readOnly ⟨packet, 0⟩ = .ok (read, after) ∧ to_qvariant size qt read = .ok result ∧ Same value result

/-- There is no hash. The names of a map are well-formed, there is no NUL in them and they take no more than 255 bytes. A string is well-formed,
where `wchar_t` has four bytes or it is written as UTF-8. -/
def CarriedNode : QVariant → Prop
  | .map entries => ∀ pair ∈ entries, WellFormed pair.1 ∧ 0 ∉ pair.1 ∧ (qt.toUtf8 pair.1).length < 256
  | .hash _ => False
  | .string text => utf8 = true ∨ size = .four → WellFormed text
  | .stringList items => ∀ text ∈ items, utf8 = true ∨ size = .four → WellFormed text
  | _ => True

def Carried (value : QVariant) : Prop := Every (CarriedNode size utf8 qt) value

end

theorem induct {holds : QVariant → Prop} (map : ∀ entries, (∀ pair ∈ entries, holds pair.2) → holds (.map entries))
    (hash : ∀ entries, (∀ pair ∈ entries, holds pair.2) → holds (.hash entries)) (list : ∀ items, (∀ item ∈ items, holds item) → holds (.list items))
    (leaf : ∀ value, (∀ entries, value ≠ .map entries) → (∀ entries, value ≠ .hash entries) → (∀ items, value ≠ .list items) → holds value) :
    ∀ value, holds value
  | .map entries => map entries (fun pair _ => induct map hash list leaf pair.2)
  | .hash entries => hash entries (fun pair _ => induct map hash list leaf pair.2)
  | .list items => list items (fun item _ => induct map hash list leaf item)
  | .stringList items => leaf _ (by simp) (by simp) (by simp)
  | .string text => leaf _ (by simp) (by simp) (by simp)
  | .byteArray bytes => leaf _ (by simp) (by simp) (by simp)
  | .bool value => leaf _ (by simp) (by simp) (by simp)
  | .int value => leaf _ (by simp) (by simp) (by simp)
  | .uint value => leaf _ (by simp) (by simp) (by simp)
  | .longLong value => leaf _ (by simp) (by simp) (by simp)
  | .uLongLong value => leaf _ (by simp) (by simp) (by simp)
  | .double bits => leaf _ (by simp) (by simp) (by simp)
  | .invalid => leaf _ (by simp) (by simp) (by simp)
termination_by value => value
decreasing_by
  all_goals
    rename_i member
    have smaller := List.sizeOf_lt_of_mem member
    simp only [QVariant.map.sizeOf_spec, QVariant.hash.sizeOf_spec, QVariant.list.sizeOf_spec]
  · cases pair
    simp only [Prod.mk.sizeOf_spec] at smaller ⊢
    omega
  · cases pair
    simp only [Prod.mk.sizeOf_spec] at smaller ⊢
    omega
  · omega

section
variable {holds other : QVariant → Prop}

theorem everyEntry_iff {entries : List (QString × QVariant)} : EveryEntry holds entries ↔ ∀ pair ∈ entries, Every holds pair.2 := by
  induction entries with
  | nil => simp [EveryEntry]
  | cons pair rest ih =>
    obtain ⟨name, value⟩ := pair
    rw [EveryEntry, ih]
    simp

theorem everyItem_iff {items : List QVariant} : EveryItem holds items ↔ ∀ item ∈ items, Every holds item := by
  induction items with
  | nil => simp [EveryItem]
  | cons item rest ih =>
    rw [EveryItem, ih]
    simp

theorem sameEntries_iff {entries others : List (QString × QVariant)} :
    SameEntries entries others ↔ List.Forall₂ (fun pair other => pair.1 = other.1 ∧ Same pair.2 other.2) entries others := by
  induction entries generalizing others with
  | nil => simp [SameEntries]
  | cons pair rest ih =>
    obtain ⟨name, value⟩ := pair
    rw [SameEntries]
    constructor
    · rintro ⟨other, more, rfl, same, later⟩
      exact .cons ⟨rfl, same⟩ (ih.mp later)
    · intro related
      cases related with
      | cons head tail =>
        rename_i other more
        obtain ⟨otherName, otherValue⟩ := other
        obtain ⟨rfl, same⟩ := head
        exact ⟨otherValue, more, rfl, same, ih.mpr tail⟩

theorem sameItems_iff {items others : List QVariant} : SameItems items others ↔ List.Forall₂ Same items others := by
  induction items generalizing others with
  | nil => simp [SameItems]
  | cons item rest ih =>
    rw [SameItems]
    constructor
    · rintro ⟨other, more, rfl, same, later⟩
      exact .cons same (ih.mp later)
    · intro related
      cases related with
      | cons head tail => exact ⟨_, _, rfl, head, ih.mpr tail⟩

end

/-! ## What a tree is read as -/

mutual
/-- What becomes of a tree when `g` is what becomes of a name and `h` what becomes of a string. An empty hash becomes a map. -/
def Reads (g h : QString → QString) : QVariant → QVariant → Prop
  | .map entries, result => ∃ others, result = .map others ∧ Sorted others ∧ (∀ pair ∈ others, Comes g h entries pair) ∧
      ∀ pair ∈ entries, ∃ other, (g pair.1, other) ∈ others
  | .hash entries, result => entries = [] ∧ result = .map []
  | .list items, result => ∃ others, result = .list others ∧ ReadsAll g h items others
  | .stringList items, result => result = .list (items.map fun text => .string (h text))
  | .string text, result => result = .string (h text)
  | .byteArray bytes, result => result = .byteArray bytes
  | .bool value, result => number result = number (.bool value)
  | .int value, result => number result = number (.int value)
  | .uint value, result => number result = number (.uint value)
  | .longLong value, result => number result = number (.longLong value)
  | .uLongLong value, result => number result = number (.uLongLong value)
  | .double bits, result => result = .double bits
  | .invalid, result => result = .invalid

def Comes (g h : QString → QString) : List (QString × QVariant) → QString × QVariant → Prop
  | [], _ => False
  | (name, value) :: rest, pair => (pair.1 = g name ∧ Reads g h value pair.2) ∨ Comes g h rest pair

def ReadsAll (g h : QString → QString) : List QVariant → List QVariant → Prop
  | [], others => others = []
  | item :: rest, others => ∃ other more, others = other :: more ∧ Reads g h item other ∧ ReadsAll g h rest more
end

/-- Names that `g` makes out of each other are left as they are. -/
def Stable (g : QString → QString) : Prop :=
  ∀ names : List QString, (∀ name ∈ names, ∃ other ∈ names, name = g other) → ∀ name ∈ names, g name = name

/-- There is no hash, and the texts are left as they are. -/
def FixedNode (g h : QString → QString) : QVariant → Prop
  | .map entries => ∀ pair ∈ entries, g pair.1 = pair.1
  | .hash _ => False
  | .string text => h text = text
  | .stringList items => ∀ text ∈ items, h text = text
  | _ => True

section
variable {g h : QString → QString}

theorem comes_iff {entries : List (QString × QVariant)} {pair : QString × QVariant} :
    Comes g h entries pair ↔ ∃ entry ∈ entries, pair.1 = g entry.1 ∧ Reads g h entry.2 pair.2 := by
  induction entries with
  | nil => simp [Comes]
  | cons entry rest ih =>
    obtain ⟨name, value⟩ := entry
    rw [Comes, ih]
    simp

theorem readsAll_iff {items others : List QVariant} : ReadsAll g h items others ↔ List.Forall₂ (Reads g h) items others := by
  induction items generalizing others with
  | nil => simp [ReadsAll]
  | cons item rest ih =>
    rw [ReadsAll]
    constructor
    · rintro ⟨other, more, rfl, reads, later⟩
      exact .cons reads (ih.mp later)
    · intro related
      cases related with
      | cons head tail => exact ⟨_, _, rfl, head, ih.mpr tail⟩

theorem related_of_sorted {holds : QVariant → QVariant → Prop} {entries others : List (QString × QVariant)} (sorted : Sorted entries)
    (otherSorted : Sorted others) (names : ∀ name, (∃ value, (name, value) ∈ entries) ↔ ∃ value, (name, value) ∈ others)
    (values : ∀ name value other, (name, value) ∈ entries → (name, other) ∈ others → holds value other) :
    List.Forall₂ (fun pair other => pair.1 = other.1 ∧ holds pair.2 other.2) entries others := by
  induction entries generalizing others with
  | nil =>
    cases others with
    | nil => exact .nil
    | cons other more => simpa using (names other.1).mpr ⟨other.2, by simp⟩
  | cons pair rest ih =>
    obtain ⟨name, value⟩ := pair
    obtain ⟨first, restSorted⟩ := List.pairwise_cons.mp sorted
    cases others with
    | nil => simpa using (names name).mp ⟨value, by simp⟩
    | cons other more =>
      obtain ⟨otherName, otherValue⟩ := other
      obtain ⟨otherFirst, moreSorted⟩ := List.pairwise_cons.mp otherSorted
      have least : ∀ {key : QString} {one : QVariant}, (key, one) ∈ (name, value) :: rest → name ≤ key := by
        intro key one isIn
        rcases List.mem_cons.mp isIn with same | later
        · exact (Prod.mk.inj same).1.ge
        · exact le_of_lt (first _ later)
      have otherLeast : ∀ {key : QString} {one : QVariant}, (key, one) ∈ (otherName, otherValue) :: more → otherName ≤ key := by
        intro key one isIn
        rcases List.mem_cons.mp isIn with same | later
        · exact (Prod.mk.inj same).1.ge
        · exact le_of_lt (otherFirst _ later)
      have same : name = otherName := by
        obtain ⟨_, inOthers⟩ := (names name).mp ⟨value, by simp⟩
        obtain ⟨_, inEntries⟩ := (names otherName).mpr ⟨otherValue, by simp⟩
        exact le_antisymm (least inEntries) (otherLeast inOthers)
      subst same
      refine .cons ⟨rfl, values name value otherValue (by simp) (by simp)⟩ (ih restSorted moreSorted (fun key => ?_) fun key one two isIn inMore =>
        values key one two (List.mem_cons_of_mem _ isIn) (List.mem_cons_of_mem _ inMore))
      constructor
      · rintro ⟨one, isIn⟩
        obtain ⟨two, inOthers⟩ := (names key).mp ⟨one, List.mem_cons_of_mem _ isIn⟩
        rcases List.mem_cons.mp inOthers with same | later
        · exact absurd (first _ isIn) (by rw [(Prod.mk.inj same).1]; exact lt_irrefl _)
        · exact ⟨two, later⟩
      · rintro ⟨two, inMore⟩
        obtain ⟨one, inEntries⟩ := (names key).mpr ⟨two, List.mem_cons_of_mem _ inMore⟩
        rcases List.mem_cons.mp inEntries with same | later
        · exact absurd (otherFirst _ inMore) (by rw [(Prod.mk.inj same).1]; exact lt_irrefl _)
        · exact ⟨one, later⟩

theorem related_mem {α β : Type} {related : α → β → Prop} {items : List α} {others : List β} (all : List.Forall₂ related items others) :
    (∀ item ∈ items, ∃ other ∈ others, related item other) ∧ ∀ other ∈ others, ∃ item ∈ items, related item other := by
  induction all with
  | nil => simp
  | cons head tail ih =>
    refine ⟨List.forall_mem_cons.mpr ⟨⟨_, by simp, head⟩, fun item isIn => ?_⟩, List.forall_mem_cons.mpr ⟨⟨_, by simp, head⟩, fun other isIn => ?_⟩⟩
    · obtain ⟨other, isOther, agree⟩ := ih.1 item isIn
      exact ⟨other, List.mem_cons_of_mem _ isOther, agree⟩
    · obtain ⟨item, isItem, agree⟩ := ih.2 other isIn
      exact ⟨item, List.mem_cons_of_mem _ isItem, agree⟩

/-- What a tree is read as is the same exactly if its texts are left as they are and there is no hash in it. -/
theorem same_iff (stable : Stable g) {value : QVariant} : ∀ {result : QVariant}, Every Possible value → Reads g h value result →
    (Same value result ↔ Every (FixedNode g h) value) := by
  induction value using induct with
  | map entries ih =>
    rintro result ⟨sorted, possible⟩ ⟨others, rfl, otherSorted, comes, all⟩
    rw [everyEntry_iff] at possible
    have comes : ∀ pair ∈ others, ∃ entry ∈ entries, pair.1 = g entry.1 ∧ Reads g h entry.2 pair.2 := fun pair isIn => comes_iff.mp (comes pair isIn)
    rw [Same, Every, FixedNode, everyEntry_iff]
    constructor
    · rintro ⟨_, same, related⟩
      cases same
      have left := (related_mem (sameEntries_iff.mp related)).1
      have fixed : ∀ name ∈ entries.map Prod.fst, g name = name := by
        refine stable _ fun name isIn => ?_
        obtain ⟨pair, inEntries, rfl⟩ := List.mem_map.mp isIn
        obtain ⟨other, inOthers, name, -⟩ := left pair inEntries
        obtain ⟨entry, isEntry, made, -⟩ := comes other inOthers
        exact ⟨entry.1, List.mem_map.mpr ⟨entry, isEntry, rfl⟩, name.trans made⟩
      have fixed : ∀ pair ∈ entries, g pair.1 = pair.1 := fun pair isIn => fixed _ (List.mem_map.mpr ⟨pair, isIn, rfl⟩)
      refine ⟨fixed, fun pair isIn => ?_⟩
      obtain ⟨other, inOthers, name, same⟩ := left pair isIn
      obtain ⟨entry, isEntry, made, reads⟩ := comes other inOthers
      have isPair : entry = pair := by
        have key : entry.1 = pair.1 := (fixed entry isEntry).symm.trans (made.symm.trans name.symm)
        exact Prod.ext key (HelperReads.single_of_sorted sorted entry isEntry pair isIn key)
      subst isPair
      exact (ih entry isIn (possible entry isIn) reads).mp same
    · rintro ⟨fixed, every⟩
      refine ⟨others, rfl, sameEntries_iff.mpr (related_of_sorted sorted otherSorted (fun name => ⟨?_, ?_⟩) ?_)⟩
      · rintro ⟨value, isIn⟩
        obtain ⟨other, inOthers⟩ := all _ isIn
        rw [fixed _ isIn] at inOthers
        exact ⟨other, inOthers⟩
      · rintro ⟨other, inOthers⟩
        obtain ⟨entry, isEntry, made, -⟩ := comes _ inOthers
        have key : name = entry.1 := made.trans (fixed entry isEntry)
        exact ⟨entry.2, key ▸ isEntry⟩
      · intro name value other isIn inOthers
        obtain ⟨entry, isEntry, made, reads⟩ := comes _ inOthers
        have key : entry.1 = name := (fixed entry isEntry).symm.trans made.symm
        have same : entry.2 = value := HelperReads.single_of_sorted sorted entry isEntry (name, value) isIn key
        rw [same] at reads
        exact (ih _ isIn (possible _ isIn) reads).mpr (every _ isIn)
  | hash entries ih =>
    rintro result possible ⟨-, rfl⟩
    rw [Same, Every]
    refine iff_of_false ?_ fun fixed => fixed.1
    rintro ⟨others, order, impossible, -⟩
    cases impossible
  | list items ih =>
    rintro result ⟨-, possible⟩ ⟨others, rfl, reads⟩
    rw [everyItem_iff] at possible
    rw [readsAll_iff] at reads
    rw [Same, Every, everyItem_iff]
    have each : SameItems items others ↔ ∀ item ∈ items, Every (FixedNode g h) item := by
      rw [sameItems_iff]
      induction reads with
      | nil => simp
      | cons head tail later =>
        rw [List.forall₂_cons, List.forall_mem_cons]
        exact and_congr (ih _ (by simp) (possible _ (by simp)) head) (later (fun item isIn => ih item (List.mem_cons_of_mem _ isIn))
          fun item isIn => possible item (List.mem_cons_of_mem _ isIn))
    constructor
    · rintro ⟨_, same, related⟩
      cases same
      exact ⟨trivial, each.mp related⟩
    · rintro ⟨-, every⟩
      exact ⟨others, rfl, each.mpr every⟩
  | leaf value noMap noHash noList =>
    intro result possible reads
    cases value with
    | map entries => exact absurd rfl (noMap entries)
    | hash entries => exact absurd rfl (noHash entries)
    | list items => exact absurd rfl (noList items)
    | stringList items =>
      cases reads
      rw [Same, Every, FixedNode, QVariant.list.injEq]
      simp
    | string text =>
      cases reads
      rw [Same, Every, FixedNode, QVariant.string.injEq]
    | byteArray bytes => exact iff_of_true reads trivial
    | bool value => exact iff_of_true reads trivial
    | int value => exact iff_of_true reads trivial
    | uint value => exact iff_of_true reads trivial
    | longLong value => exact iff_of_true reads trivial
    | uLongLong value => exact iff_of_true reads trivial
    | double bits => exact iff_of_true reads trivial
    | invalid => exact iff_of_true reads trivial

end

/-! ## Names -/

/-- What becomes of a name in memory. -/
def name_direct (qt : Qt) (name : QString) : QString := qt.fromUtf8 (c_str (qt.toUtf8 name))

/-- And in a packet, where one byte has the length of a name. -/
def name_packet (qt : Qt) (name : QString) : QString :=
  qt.fromUtf8 ((c_str (qt.toUtf8 name)).take ((c_str (qt.toUtf8 name)).length % 256))

/-- A text that a `std::string` ending at a NUL can hold. -/
def Good (name : QString) : Prop := ∃ chars : List Char, name = utf16 chars ∧ Char.ofNat 0 ∉ chars

theorem encode_nul (c : Char) : (0 : UInt8) ∈ String.utf8EncodeChar c ↔ c = Char.ofNat 0 := by
  have large : ∀ n, 0x80 ≤ n % 256 → (0 : UInt8) ≠ UInt8.ofNat n := by
    intro n high same
    have value := congrArg UInt8.toNat same
    rw [UInt8.toNat_ofNat'] at value
    simp only [UInt8.reduceToNat, Nat.reducePow] at value
    omega
  have other : ∀ n : Nat, n.isValidChar → 0x80 ≤ n → Char.ofNat n ≠ Char.ofNat 0 := by
    intro n valid high same
    have value : (Char.ofNat n).val.toNat = 0 := congrArg (fun c => c.val.toNat) same
    rw [toNat_ofNat valid] at value
    omega
  rcases encode_forms c with ⟨n, high, rfl, isForm⟩ | ⟨n, low, high, rfl, isForm⟩ | ⟨n, low, high, scalar, rfl, isForm⟩ | ⟨n, low, high, rfl, isForm⟩ <;>
    rw [isForm]
  · rw [List.mem_singleton]
    constructor
    · intro same
      have value := congrArg UInt8.toNat same
      rw [UInt8.toNat_ofNat'] at value
      simp only [UInt8.reduceToNat, Nat.reducePow] at value
      rw [show n = 0 by omega]
    · intro same
      have value : (Char.ofNat n).val.toNat = 0 := congrArg (fun c => c.val.toNat) same
      rw [toNat_ofNat (.inl (by omega))] at value
      rw [value]
      rfl
  · refine iff_of_false ?_ (other n (.inl (by omega)) low)
    simp only [List.mem_cons, List.not_mem_nil, or_false, not_or]
    exact ⟨large _ (by omega), large _ (by omega)⟩
  · refine iff_of_false ?_ (other n (by simp only [Nat.isValidChar]; omega) (by omega))
    simp only [List.mem_cons, List.not_mem_nil, or_false, not_or]
    exact ⟨large _ (by omega), large _ (by omega), large _ (by omega)⟩
  · refine iff_of_false ?_ (other n (by simp only [Nat.isValidChar]; omega) (by omega))
    simp only [List.mem_cons, List.not_mem_nil, or_false, not_or]
    exact ⟨large _ (by omega), large _ (by omega), large _ (by omega), large _ (by omega)⟩

theorem c_str_utf8 (chars : List Char) : c_str (utf8Of chars) = utf8Of (chars.takeWhile (· ≠ Char.ofNat 0)) := by
  induction chars with
  | nil => rfl
  | cons c chars ih =>
    rw [utf8Of, List.flatMap_cons, c_str, List.takeWhile_cons]
    by_cases nul : c = Char.ofNat 0
    · subst nul
      rfl
    · have inside : ∀ byte ∈ String.utf8EncodeChar c, decide (byte ≠ 0) = true := fun byte isIn =>
        decide_eq_true fun zero => nul ((encode_nul c).mp (zero ▸ isIn))
      rw [List.takeWhile_append_of_pos inside, if_pos (decide_eq_true nul), utf8Of, List.flatMap_cons]
      exact congrArg (String.utf8EncodeChar c ++ ·) ih

theorem encode_length (c : Char) : 1 ≤ (String.utf8EncodeChar c).length ∧ (String.utf8EncodeChar c).length ≤ 4 := by
  rw [String.length_utf8EncodeChar]
  exact ⟨c.utf8Size_pos, c.utf8Size_le_four⟩

theorem take_utf8 (chars : List Char) (n : Nat) : ∃ before part c, (utf8Of chars).take n = utf8Of before ++ part ∧ before <+: chars ∧
    part <+: String.utf8EncodeChar c ∧ part ≠ String.utf8EncodeChar c := by
  induction chars generalizing n with
  | nil => exact ⟨[], [], Char.ofNat 0, by simp [utf8Of], List.prefix_rfl, List.nil_prefix, by decide⟩
  | cons c chars ih =>
    rw [utf8Of, List.flatMap_cons, List.take_append]
    by_cases inside : n < (String.utf8EncodeChar c).length
    · refine ⟨[], (String.utf8EncodeChar c).take n, c, ?_, List.nil_prefix, List.take_prefix _ _, fun whole => ?_⟩
      · rw [Nat.sub_eq_zero_of_le inside.le, List.take_zero, List.append_nil]
        rfl
      · have length := congrArg List.length whole
        rw [List.length_take] at length
        omega
    · obtain ⟨before, part, d, split, isPrefix, starts, unfinished⟩ := ih (n - (String.utf8EncodeChar c).length)
      refine ⟨c :: before, part, d, ?_, List.cons_prefix_cons.mpr ⟨rfl, isPrefix⟩, starts, unfinished⟩
      rw [List.take_of_length_le (not_lt.mp inside)]
      change _ ++ (utf8Of chars).take _ = _
      rw [split, utf8Of, utf8Of, List.flatMap_cons, List.append_assoc]

theorem units_nul {c : Char} : 0 ∈ (units_of .two c).map UInt32.toUInt16 ↔ c = Char.ofNat 0 := by
  have valid : c.val.toNat.isValidChar := c.valid
  have scalar := valid
  simp only [Nat.isValidChar] at scalar
  have zero : c = Char.ofNat 0 ↔ c.val.toNat = 0 := by
    constructor
    · rintro rfl
      rfl
    · intro value
      have same := c.ofNat_toNat
      rw [Char.toNat, value] at same
      exact same.symm
  have keeps : ∀ w : UInt32, (0 : UInt16) = w.toUInt16 ↔ w.toNat % 65536 = 0 := by
    intro w
    rw [← UInt16.toNat_inj, UInt32.toNat_toUInt16]
    simp [eq_comm]
  rw [zero, units_of]
  by_cases small : c.val < 0x10000
  · have bound := UInt32.lt_iff_toNat_lt.mp small
    simp only [UInt32.reduceToNat] at bound
    rw [if_pos (.inr small), List.map_singleton, List.mem_singleton, keeps]
    omega
  · have large : 0x10000 ≤ c.val.toNat := not_lt.mp fun below => small (UInt32.lt_iff_toNat_lt.mpr below)
    obtain ⟨first, second⟩ := surrogate_toNat large
    rw [if_neg (not_or.mpr ⟨by decide, small⟩), List.map_cons, List.map_singleton, List.mem_cons, List.mem_singleton, keeps, keeps, first, second]
    omega

theorem utf16_nul (chars : List Char) : 0 ∈ utf16 chars ↔ Char.ofNat 0 ∈ chars := by
  induction chars with
  | nil => simp [utf16]
  | cons c chars ih =>
    rw [utf16, List.flatMap_cons, List.map_append, List.mem_append, units_nul, List.mem_cons]
    exact or_congr eq_comm ih

theorem good_iff (name : QString) : Good name ↔ WellFormed name ∧ 0 ∉ name := by
  constructor
  · rintro ⟨chars, rfl, noNul⟩
    exact ⟨⟨chars, rfl⟩, fun isIn => noNul ((utf16_nul chars).mp isIn)⟩
  · rintro ⟨⟨chars, rfl⟩, noNul⟩
    exact ⟨chars, rfl, fun isIn => noNul ((utf16_nul chars).mpr isIn)⟩

section
variable {qt : Qt}

theorem fromUtf8_whole (converts : Converts qt) (chars : List Char) : qt.fromUtf8 (utf8Of chars) = utf16 chars := by
  obtain ⟨count, none, read⟩ := converts.fromUtf8 chars [] (Char.ofNat 0) List.nil_prefix (by decide)
  rw [Nat.le_zero.mp none] at read
  simpa using read

theorem name_bytes (converts : Converts qt) (name : QString) :
    ∃ chars : List Char, c_str (qt.toUtf8 name) = utf8Of chars ∧ Char.ofNat 0 ∉ chars := by
  obtain ⟨chars, valid⟩ := converts.toUtf8_valid name
  refine ⟨chars.takeWhile (· ≠ Char.ofNat 0), by rw [valid, c_str_utf8], fun isIn => ?_⟩
  simpa using List.mem_takeWhile_imp isIn

theorem good_bytes (converts : Converts qt) {chars : List Char} (noNul : Char.ofNat 0 ∉ chars) : c_str (qt.toUtf8 (utf16 chars)) = utf8Of chars := by
  have whole : chars.takeWhile (· ≠ Char.ofNat 0) = chars :=
    List.takeWhile_eq_self_iff.mpr fun c isIn => decide_eq_true fun same => noNul (same ▸ isIn)
  rw [converts.toUtf8, c_str_utf8, whole]

theorem name_direct_iff (converts : Converts qt) (name : QString) : name_direct qt name = name ↔ Good name := by
  constructor
  · intro fixed
    obtain ⟨chars, bytes, noNul⟩ := name_bytes converts name
    rw [name_direct, bytes, fromUtf8_whole converts] at fixed
    exact ⟨chars, fixed.symm, noNul⟩
  · rintro ⟨chars, rfl, noNul⟩
    rw [name_direct, good_bytes converts noNul, fromUtf8_whole converts]

theorem name_direct_stable (converts : Converts qt) : Stable (name_direct qt) := by
  intro names made name isIn
  obtain ⟨other, -, rfl⟩ := made name isIn
  obtain ⟨chars, bytes, noNul⟩ := name_bytes converts other
  refine (name_direct_iff converts _).mpr ⟨chars, ?_, noNul⟩
  rw [name_direct, bytes, fromUtf8_whole converts]

theorem name_packet_made (converts : Converts qt) (name : QString) :
    Good (name_packet qt name) ∧ (qt.toUtf8 (name_packet qt name)).length ≤ (c_str (qt.toUtf8 name)).length % 256 + 9 := by
  obtain ⟨chars, bytes, noNul⟩ := name_bytes converts name
  obtain ⟨before, part, c, split, isPrefix, starts, unfinished⟩ := take_utf8 chars ((utf8Of chars).length % 256)
  obtain ⟨count, few, read⟩ := converts.fromUtf8 before part c starts unfinished
  have made : name_packet qt name = utf16 (before ++ List.replicate count (Char.ofNat 0xFFFD)) := by
    rw [name_packet, bytes, split, read]
  have short : part.length ≤ 3 := by
    have most := (encode_length c).2
    rcases starts.length_le.lt_or_eq with less | same
    · omega
    · exact absurd (starts.eq_of_length same) unfinished
  refine ⟨⟨_, made, fun isIn => ?_⟩, ?_⟩
  · rcases List.mem_append.mp isIn with inside | replaced
    · exact noNul (isPrefix.subset inside)
    · exact absurd (List.eq_of_mem_replicate replaced) (by decide)
  · have lengths := congrArg List.length split
    rw [List.length_take, List.length_append] at lengths
    have replaced : ∀ n, (utf8Of (List.replicate n (Char.ofNat 0xFFFD))).length = 3 * n := by
      intro n
      induction n with
      | zero => rfl
      | succ n ih =>
        rw [List.replicate_succ, utf8Of, List.flatMap_cons, List.length_append]
        change 3 + (utf8Of (List.replicate n (Char.ofNat 0xFFFD))).length = _
        omega
    have whole : utf8Of (before ++ List.replicate count (Char.ofNat 0xFFFD)) = utf8Of before ++ utf8Of (List.replicate count (Char.ofNat 0xFFFD)) :=
      List.flatMap_append
    rw [made, converts.toUtf8, bytes, whole, List.length_append, replaced]
    omega

theorem name_packet_short (converts : Converts qt) {name : QString} (good : Good name) (short : (qt.toUtf8 name).length < 256) :
    name_packet qt name = name := by
  obtain ⟨chars, rfl, noNul⟩ := good
  rw [name_packet, good_bytes converts noNul]
  rw [converts.toUtf8] at short
  rw [Nat.mod_eq_of_lt short, List.take_length, fromUtf8_whole converts]

theorem name_packet_all (converts : Converts qt) {names : List QString} (made : ∀ name ∈ names, ∃ other ∈ names, name = name_packet qt other) :
    ∀ name ∈ names, Good name ∧ (qt.toUtf8 name).length < 256 := by
  have good : ∀ name ∈ names, Good name ∧ (qt.toUtf8 name).length ≤ 264 := by
    intro name isIn
    obtain ⟨other, -, rfl⟩ := made name isIn
    obtain ⟨good, bound⟩ := name_packet_made converts other
    exact ⟨good, by omega⟩
  intro name isIn
  refine ⟨(good name isIn).1, ?_⟩
  obtain ⟨other, otherIn, isMade⟩ := made name isIn
  by_cases short : (qt.toUtf8 other).length < 256
  · rwa [isMade, name_packet_short converts (good other otherIn).1 short]
  · obtain ⟨⟨chars, isChars, noNul⟩, bound⟩ := good other otherIn
    have small := (name_packet_made converts other).2
    rw [isChars, good_bytes converts noNul, ← converts.toUtf8, ← isChars, ← isMade] at small
    omega

theorem name_packet_stable (converts : Converts qt) : Stable (name_packet qt) := by
  intro names made name isIn
  obtain ⟨good, short⟩ := name_packet_all converts made name isIn
  exact name_packet_short converts good short

theorem name_packet_iff (converts : Converts qt) (name : QString) :
    name_packet qt name = name ↔ Good name ∧ (qt.toUtf8 name).length < 256 := by
  refine ⟨fun fixed => ?_, fun holds => name_packet_short converts holds.1 holds.2⟩
  exact @name_packet_all qt converts [name] (by simpa using fixed.symm) name (by simp)

end

/-! ## Strings -/

section
variable {size : WCharSize} {utf8 : Bool} {qt : Qt}

theorem wide_two_flatMap (units : QString) : wide_two ((units.map UInt16.toUInt32).flatMap (fun w => leBytes 2 w.toNat)) = units.map UInt16.toUInt32 := by
  induction units with
  | nil => rfl
  | cons unit rest ih =>
    have two : ∃ a b, leBytes 2 unit.toUInt32.toNat = [a, b] := ⟨_, _, rfl⟩
    obtain ⟨a, b, spelled⟩ := two
    have value : leNat [a, b] = unit.toUInt32.toNat := by
      rw [← spelled]
      refine leNat_leBytes_of_lt ?_
      rw [UInt16.toNat_toUInt32]
      exact unit.toNat_lt
    rw [List.map_cons, List.flatMap_cons, spelled, List.cons_append, List.cons_append, List.nil_append, wide_two, value, ih, UInt32.ofNat_toNat]

theorem wchars_bytes (text : QString) : wchars size (wchar_bytes size (to_std_wstring size qt text)) = to_std_wstring size qt text := by
  cases size with
  | two => exact wide_two_flatMap text
  | four => exact HelperReads.wide_flatMap (qt.toStdWString text)

/-- What becomes of a string. -/
def string_read (size : WCharSize) (utf8 : Bool) (qt : Qt) (text : QString) : QString :=
  if utf8 then qt.fromUtf8 (qt.toUtf8 text) else from_wchar_array size qt (to_std_wstring size qt text)

theorem string_read_iff (converts : Converts qt) (text : QString) :
    string_read size utf8 qt text = text ↔ (utf8 = true ∨ size = .four → WellFormed text) := by
  cases utf8 with
  | true =>
    rw [string_read, if_pos rfl]
    constructor
    · intro fixed _
      obtain ⟨chars, valid⟩ := converts.toUtf8_valid text
      rw [valid, fromUtf8_whole converts] at fixed
      exact ⟨chars, fixed.symm⟩
    · intro wellFormed
      obtain ⟨chars, rfl⟩ := wellFormed (.inl rfl)
      rw [converts.toUtf8, fromUtf8_whole converts]
  | false =>
    rw [string_read, if_neg Bool.false_ne_true]
    cases size with
    | two =>
      refine iff_of_true ?_ (by simp)
      rw [from_wchar_array, to_std_wstring, List.map_map]
      exact (List.map_congr_left fun unit _ => UInt16.toUInt16_toUInt32 unit).trans (List.map_id text)
    | four =>
      rw [from_wchar_array, to_std_wstring]
      constructor
      · intro fixed _
        obtain ⟨chars, valid⟩ := converts.toStdWString_valid text
        rw [valid, converts.fromWCharArray] at fixed
        exact ⟨chars, fixed.symm⟩
      · intro wellFormed
        obtain ⟨chars, rfl⟩ := wellFormed (.inr rfl)
        rw [converts.toStdWString, converts.fromWCharArray]

theorem to_leaf_string {text : QString} (short : (string_bytes size utf8 qt text).length < 2 ^ 32) :
    to_leaf size qt (from_string size utf8 qt text) = .ok (.string (string_read size utf8 qt text)) := by
  cases utf8 with
  | true =>
    rw [string_bytes, if_pos rfl] at short
    simp [to_leaf, from_string, cut_short short, string_bytes, string_read, to_plain, VAR_TYPE_UTF8, VAR_TYPE_UNICODE, VAR_TYPE_BYTES]
  | false =>
    have type : (from_string size false qt text).type = VAR_TYPE_UNICODE := rfl
    have payload : (from_string size false qt text).payload = wchar_bytes size (to_std_wstring size qt text) := cut_short short
    rw [to_leaf, if_pos type, payload, wchars_bytes, string_read, if_neg Bool.false_ne_true]

/-! ## Leaves -/

theorem signed_value {bits : Nat} {value : Int} (positive : 0 < bits) (low : -2 ^ (bits - 1) ≤ value) (high : value < 2 ^ (bits - 1)) :
    Int.bmod (((value % 2 ^ bits).toNat : Nat) : Int) (2 ^ bits) = value := by
  obtain ⟨bits, rfl⟩ : ∃ n, bits = n + 1 := ⟨bits - 1, by omega⟩
  simp only [Nat.add_sub_cancel] at low high
  have power : (2 : Int) ^ (bits + 1) = 2 * 2 ^ bits := by rw [pow_succ]; ring
  have nonneg : 0 ≤ value % 2 ^ (bits + 1) := Int.emod_nonneg _ (by positivity)
  rw [Int.toNat_of_nonneg nonneg]
  have cast : ((2 ^ (bits + 1) : Nat) : Int) = 2 ^ (bits + 1) := by push_cast; rfl
  rw [← cast, Int.emod_bmod]
  refine Int.bmod_eq_of_le ?_ ?_
  · rw [cast, power]
    omega
  · rw [cast, power]
    omega

/-- What a packet has of a tree. -/
structure Fits (size : WCharSize) (utf8 : Bool) (qt : Qt) (value : QVariant) (packed : Packed) : Prop where
  typed : packed.type ≠ VAR_TYPE_EMPTY
  short : packed.payload.length ≤ payload_size size utf8 qt value
  reads : ∃ result, (∀ fuel, packed.payload.length < fuel → to_packed size qt fuel packed = .ok result) ∧
    Reads (name_packet qt) (string_read size utf8 qt) value result

/-- What a variant that was built is read as in memory, and what is packed. -/
structure Spec (size : WCharSize) (utf8 : Bool) (qt : Qt) (value : QVariant) (variant : Variant) : Prop where
  direct : ∃ result, to_qvariant size qt variant = .ok result ∧ Reads (name_direct qt) (string_read size utf8 qt) value result
  packs : ∃ packed, Built variant packed ∧ Fits size utf8 qt value packed

theorem spec_leaf {value : QVariant} {type : VarType} {payload : Bytes} (flat : kindOf type = none) (typed : type ≠ VAR_TYPE_EMPTY)
    (short : payload.length ≤ payload_size size utf8 qt value) (result : QVariant) (reads : to_leaf size qt ⟨type, payload⟩ = .ok result)
    (is : ∀ g, Reads g (string_read size utf8 qt) value result) : Spec size utf8 qt value (.raw .readWrite ⟨type, payload⟩) where
  direct := by
    refine ⟨result, ?_, is _⟩
    simp only [to_qvariant, to_packed, flat, reads]
  packs := by
    refine ⟨⟨type, payload⟩, ⟨rfl, by simp only [mk_payload, flat], rfl⟩, typed, short, result, fun fuel enough => ?_, is _⟩
    obtain ⟨fuel, rfl⟩ := Nat.exists_eq_add_of_lt enough
    simp only [to_packed, flat, reads]

theorem spec_string {text : QString} (short : (string_bytes size utf8 qt text).length < 2 ^ 32) :
    Spec size utf8 qt (.string text) (.raw .readWrite (from_string size utf8 qt text)) := by
  have length : (cut (string_bytes size utf8 qt text)).length ≤ payload_size size utf8 qt (.string text) := by
    rw [cut_short short, payload_size]
  cases utf8 with
  | true => exact spec_leaf rfl (by decide) length _ (to_leaf_string short) fun g => rfl
  | false => exact spec_leaf rfl (by decide) length _ (to_leaf_string short) fun g => rfl

theorem to_leaf_plain {type : VarType} {payload : Bytes} (noString : type ≠ VAR_TYPE_UNICODE) :
    to_leaf size qt ⟨type, payload⟩ = to_plain qt ⟨type, payload⟩ := by
  rw [to_leaf, if_neg noString]

theorem leNat_signed {bits width : Nat} {value : Int} (isWidth : 256 ^ width = 2 ^ bits) (positive : 0 < bits) (low : -2 ^ (bits - 1) ≤ value)
    (high : value < 2 ^ (bits - 1)) : Int.bmod (leNat (leBytes width (value % 2 ^ bits).toNat)) (2 ^ bits) = value := by
  have small : (value % 2 ^ bits).toNat < 256 ^ width := by
    have above : value % 2 ^ bits < 2 ^ bits := Int.emod_lt_of_pos _ (by positivity)
    have cast : ((2 ^ bits : Nat) : Int) = 2 ^ bits := by push_cast; rfl
    rw [isWidth]
    omega
  rw [leNat_leBytes_of_lt small]
  exact signed_value positive low high

theorem spec_leaves {value : QVariant} {variant : Variant} (possible : Possible value) (short : payload_size size utf8 qt value < 2 ^ 32)
    (noMap : ∀ entries, value ≠ .map entries) (noHash : ∀ entries, value ≠ .hash entries) (noList : ∀ items, value ≠ .list items)
    (noStrings : ∀ items, value ≠ .stringList items) (built : from_qvariant size utf8 qt value = .ok variant) : Spec size utf8 qt value variant := by
  cases value with
  | map entries => exact absurd rfl (noMap entries)
  | hash entries => exact absurd rfl (noHash entries)
  | list items => exact absurd rfl (noList items)
  | stringList items => exact absurd rfl (noStrings items)
  | string text =>
    cases built
    exact spec_string short
  | byteArray bytes =>
    cases built
    rw [payload_size] at short
    have length : (cut bytes).length ≤ payload_size size utf8 qt (.byteArray bytes) := by rw [cut_short short, payload_size]
    exact spec_leaf rfl (by decide) length (.byteArray (cut bytes)) (to_leaf_plain (by decide)) fun g => by rw [Reads, cut_short short]
  | bool value =>
    cases built
    refine spec_leaf rfl (by decide) le_rfl (.int (if value then 1 else 0)) ?_ fun g => ?_
    · cases value <;> rfl
    · cases value <;> rfl
  | int value =>
    cases built
    have number := @leNat_signed 32 4 value rfl (by decide) possible.1 possible.2
    refine spec_leaf rfl (by decide) (leBytes_length _ _).le (.int value) ?_ fun g => rfl
    exact (to_leaf_plain (by decide)).trans (congrArg (fun value => Except.ok (QVariant.int value)) number)
  | uint value =>
    cases built
    have number : leNat (leBytes 4 value) = value := leNat_leBytes_of_lt possible
    refine spec_leaf rfl (by decide) (leBytes_length _ _).le (.uint value) ?_ fun g => rfl
    exact (to_leaf_plain (by decide)).trans (congrArg (fun value => Except.ok (QVariant.uint value)) number)
  | longLong value =>
    cases built
    have number := @leNat_signed 64 8 value rfl (by decide) possible.1 possible.2
    refine spec_leaf rfl (by decide) (leBytes_length _ _).le (.longLong value) ?_ fun g => rfl
    exact (to_leaf_plain (by decide)).trans (congrArg (fun value => Except.ok (QVariant.longLong value)) number)
  | uLongLong value =>
    cases built
    have number : leNat (leBytes 8 value) = value := leNat_leBytes_of_lt possible
    refine spec_leaf rfl (by decide) (leBytes_length _ _).le (.uLongLong value) ?_ fun g => rfl
    exact (to_leaf_plain (by decide)).trans (congrArg (fun value => Except.ok (QVariant.uLongLong value)) number)
  | double bits =>
    cases built
    have eight : bits.length = 8 := possible
    refine spec_leaf rfl (by decide) eight.le (.double bits) ?_ fun g => rfl
    rw [to_leaf_plain (by decide), to_plain]
    simp [eight, VAR_TYPE_DOUBLE, VAR_TYPE_UINT, VAR_TYPE_SINT, VAR_TYPE_BYTES, VAR_TYPE_UNICODE, VAR_TYPE_UTF8, VAR_TYPE_ASCII]
  | invalid => exact absurd possible id

end

/-! ## Lists and maps of what was built -/

section
variable {α β : Type}

theorem related_exists {related : α → β → Prop} {items : List α} (each : ∀ item ∈ items, ∃ other, related item other) :
    ∃ others, List.Forall₂ related items others := by
  induction items with
  | nil => exact ⟨[], .nil⟩
  | cons item rest ih =>
    obtain ⟨other, first⟩ := each item (by simp)
    obtain ⟨others, later⟩ := ih fun item isIn => each item (List.mem_cons_of_mem _ isIn)
    exact ⟨other :: others, .cons first later⟩

theorem related_split {γ : Type} {related : α → β → Prop} {left : α → γ → Prop} {right : β → γ → Prop}
    (each : ∀ item other, related item other → ∃ value, left item value ∧ right other value) {items : List α} {others : List β}
    (all : List.Forall₂ related items others) : ∃ values, List.Forall₂ left items values ∧ List.Forall₂ right others values := by
  induction all with
  | nil => exact ⟨[], .nil, .nil⟩
  | cons first later ih =>
    obtain ⟨value, isLeft, isRight⟩ := each _ _ first
    obtain ⟨values, lefts, rights⟩ := ih
    exact ⟨value :: values, .cons isLeft lefts, .cons isRight rights⟩

theorem mapM_related {read : α → Except CException β} {items : List α} {others : List β}
    (related : List.Forall₂ (fun item other => read item = .ok other) items others) : items.mapM read = .ok others := by
  induction related with
  | nil => rfl
  | cons first later ih => simp only [List.mapM_cons, first, ih, bind, Except.bind, pure, Except.pure]

variable [LinearOrder α]

theorem filled_has {pairs : List (α × β)} {pair : α × β} (isIn : pair ∈ pairs) : ∃ value, (pair.1, value) ∈ filled pairs := by
  have grow : ∀ kept : List (α × β), (pair ∈ pairs ∨ (find pair.1 kept).isSome) →
      (find pair.1 (pairs.foldl (fun kept pair => put pair.1 pair.2 kept) kept)).isSome := by
    clear isIn
    induction pairs with
    | nil => simp
    | cons first rest ih =>
      intro kept known
      refine ih _ ?_
      rw [find_put]
      by_cases same : first.1 = pair.1
      · simp [same]
      · rcases known with isIn | before
        · rcases List.mem_cons.mp isIn with rfl | later
          · exact absurd rfl same
          · exact .inl later
        · exact .inr (by simpa [same, Ne.symm same] using before)
  obtain ⟨value, found⟩ := Option.isSome_iff_exists.mp (grow [] (.inl isIn))
  exact ⟨value, find_mem found⟩

theorem filled_cost (cost : α × β → Nat) (pairs : List (α × β)) : ((filled pairs).map cost).sum ≤ (pairs.map cost).sum := by
  have one : ∀ (key : α) (value : β) (kept : List (α × β)), ((put key value kept).map cost).sum ≤ (kept.map cost).sum + cost (key, value) := by
    intro key value kept
    induction kept with
    | nil => simp [put]
    | cons first rest ih =>
      obtain ⟨other, old⟩ := first
      rw [put]
      split_ifs with before here
      · simp only [List.map_cons, List.sum_cons]
        omega
      · simp only [List.map_cons, List.sum_cons]
        omega
      · simp only [List.map_cons, List.sum_cons]
        omega
  have grow : ∀ kept : List (α × β), ((pairs.foldl (fun kept pair => put pair.1 pair.2 kept) kept).map cost).sum ≤
      (kept.map cost).sum + (pairs.map cost).sum := by
    induction pairs with
    | nil => simp
    | cons first rest ih =>
      obtain ⟨key, value⟩ := first
      intro kept
      have later := ih (put key value kept)
      have now := one key value kept
      simp only [List.foldl_cons, List.map_cons, List.sum_cons]
      omega
  exact (grow []).trans (by simp)

end

theorem map_reads {α : Type} {qt : Qt} {g h : QString → QString} {entries : List (QString × QVariant)} {kept : List (Key × α)} {children : List QVariant}
    (related : List.Forall₂ (fun pair child => ∃ entry ∈ entries, key_string qt pair.1 = g entry.1 ∧ Reads g h entry.2 child) kept children)
    (all : ∀ entry ∈ entries, ∃ pair ∈ kept, key_string qt pair.1 = g entry.1) :
    Reads g h (.map entries) (to_container qt .map (kept.map Prod.fst) children) := by
  have zipped : (∀ pair ∈ ((kept.map Prod.fst).map (key_string qt)).zip children, ∃ entry ∈ entries, pair.1 = g entry.1 ∧ Reads g h entry.2 pair.2) ∧
      ∀ pair ∈ kept, ∃ child, (key_string qt pair.1, child) ∈ ((kept.map Prod.fst).map (key_string qt)).zip children := by
    clear all
    induction related with
    | nil => simp
    | cons first later ih =>
      simp only [List.map_cons, List.zip_cons_cons]
      refine ⟨List.forall_mem_cons.mpr ⟨first, ih.1⟩, List.forall_mem_cons.mpr ⟨⟨_, List.mem_cons_self⟩, fun pair isIn => ?_⟩⟩
      obtain ⟨child, found⟩ := ih.2 pair isIn
      exact ⟨child, List.mem_cons_of_mem _ found⟩
  refine ⟨_, rfl, HelperReads.sorted_filled _, fun pair isIn => comes_iff.mpr (zipped.1 pair (mem_of_filled isIn)), fun entry isIn => ?_⟩
  obtain ⟨pair, inKept, name⟩ := all entry isIn
  obtain ⟨child, found⟩ := zipped.2 pair inKept
  rw [← name]
  exact filled_has found

section
variable {size : WCharSize} {utf8 : Bool} {qt : Qt}

variable {value : QVariant} {items : List QVariant} {entries : List (QString × QVariant)} {kept : List (Key × Variant)}

theorem Spec.shared {variant : Variant} (spec : Spec size utf8 qt value variant) : assign variant = variant := by
  obtain ⟨packed, built, -⟩ := spec.packs
  exact built.shared

theorem to_children_mapM (entries : List (Key × Variant)) : to_children size qt entries = entries.mapM (fun pair => to_qvariant size qt pair.2) := by
  induction entries with
  | nil => rfl
  | cons pair rest ih => rw [to_children, List.mapM_cons, ih]

theorem packet_size_mono {type other : VarType} {short long : Nat} (typed : type ≠ VAR_TYPE_EMPTY) (typedOther : other ≠ VAR_TYPE_EMPTY)
    (shorter : short ≤ long) : packet_size type short ≤ packet_size other long := by
  simp only [packet_size, packet_header_length, UCHAR_MAX, USHRT_MAX, typed, typedOther, false_or]
  grind

theorem type_of_typed (possible : Every Possible value) : type_of utf8 value ≠ VAR_TYPE_EMPTY := by
  cases value with
  | string text => cases utf8 <;> simp [type_of] <;> decide
  | invalid => exact absurd possible id
  | _ => simp only [type_of]; decide

theorem to_packet_fits {packed : Packed} (possible : Every Possible value) (fits : Fits size utf8 qt value packed) :
    (to_packet packed).length ≤ packet_size (type_of utf8 value) (payload_size size utf8 qt value) := by
  rw [to_packet, List.length_append]
  exact packet_size_mono fits.typed (type_of_typed possible) fits.short

theorem Fits.encodable {packed : Packed} (fits : Fits size utf8 qt value packed)
    (small : payload_size size utf8 qt value < 2 ^ 32) :
    Encodable packed := ⟨fun empty => absurd empty fits.typed, fits.short.trans_lt small⟩

/-! ## Lists -/

theorem list_size_eq (items : List QVariant) :
    list_size size utf8 qt items = (items.map fun item => packet_size (type_of utf8 item) (payload_size size utf8 qt item)).sum := by
  induction items with
  | nil => rfl
  | cons item rest ih => rw [list_size, List.map_cons, List.sum_cons, ih]

theorem small_item (small : list_size size utf8 qt items < 2 ^ 32) {item : QVariant} (isIn : item ∈ items) :
    payload_size size utf8 qt item < 2 ^ 32 := by
  refine lt_of_le_of_lt ?_ small
  rw [list_size_eq]
  exact (Nat.le_add_left _ _).trans (List.single_le_sum (by simp) _ (List.mem_map.mpr ⟨item, isIn, rfl⟩))

theorem mk_payload_entries {kind : Kind} {entries : List (Key × Variant)} {packs : List (Key × Packed)}
    (related : List.Forall₂ (Keyed Built) entries packs) :
    Built (.opened .readWrite kind [] entries) ⟨kind.type, packs.flatMap write_entry⟩ := ⟨rfl, mk_entries_built related, rfl⟩

theorem to_packed_entries {kind : Kind} {payload : Bytes} {entries : List (Key × Packed)} {children : List QVariant}
    (loaded : load kind payload = .ok entries) (smaller : ∀ pair ∈ entries, pair.2.payload.length < payload.length)
    (related : List.Forall₂ (fun pair child => ∀ fuel, pair.2.payload.length < fuel → to_packed size qt fuel pair.2 = .ok child) entries children) :
    ∀ fuel, payload.length < fuel → to_packed size qt fuel ⟨kind.type, payload⟩ = .ok (to_container qt kind (entries.map Prod.fst) children) := by
  intro fuel enough
  obtain ⟨fuel, rfl⟩ := Nat.exists_eq_add_of_lt enough
  have all : entries.mapM (fun pair => to_packed size qt (payload.length + fuel) pair.2) = .ok children := by
    refine mapM_related ?_
    clear loaded
    induction related with
    | nil => exact .nil
    | cons first later ih =>
      refine .cons (first _ ?_) (ih fun pair isIn => smaller pair (List.mem_cons_of_mem _ isIn))
      exact (smaller _ (by simp)).trans_le (Nat.le_add_right _ _)
  simp only [to_packed, kindOf_type, loaded, all, bind, Except.bind, pure, Except.pure]

theorem spec_list {variants : List Variant} (possible : ∀ item ∈ items, Every Possible item)
    (small : list_size size utf8 qt items < 2 ^ 32) (related : List.Forall₂ (Spec size utf8 qt) items variants) :
    Spec size utf8 qt (.list items) (.opened .readWrite .list [] (variants.map fun variant => (.item, variant))) where
  direct := by
    obtain ⟨results, reads, are⟩ := related_split (fun item variant (spec : Spec size utf8 qt item variant) =>
      spec.direct.imp fun result holds => And.intro holds.2 holds.1) related
    refine ⟨.list results, ?_, results, rfl, readsAll_iff.mpr reads⟩
    have all : to_children size qt (variants.map fun variant => (Key.item, variant)) = .ok results := by
      rw [to_children_mapM]
      exact mapM_related (List.forall₂_map_left_iff.mpr are)
    simp only [to_qvariant, all, to_container, bind, Except.bind, pure, Except.pure]
  packs := by
    obtain ⟨packs, fits, built⟩ := related_split (fun item variant (spec : Spec size utf8 qt item variant) =>
      spec.packs.imp fun packed holds => And.intro holds.2 holds.1) related
    have keyed : List.Forall₂ (Keyed Built) (variants.map fun variant => (Key.item, variant)) (packs.map fun packed => (Key.item, packed)) :=
      List.forall₂_map_left_iff.mpr (List.forall₂_map_right_iff.mpr (built.imp fun _ _ built => ⟨rfl, built⟩))
    have each := (related_mem fits).2
    refine ⟨_, mk_payload_entries keyed, kind_type_ne_empty .list, ?_, ?_⟩
    · rw [payload_size, list_size_eq, List.length_flatMap, List.map_map]
      clear related built keyed small each
      induction fits with
      | nil => exact le_rfl
      | @cons item packed items packs first later ih =>
        have head := to_packet_fits (possible _ (by simp)) first
        have rest := ih fun item isIn => possible item (List.mem_cons_of_mem _ isIn)
        have bare : (write_entry (Key.item, packed)).length = (to_packet packed).length := rfl
        simp only [List.map_cons, List.sum_cons, Function.comp_apply, bare]
        omega
    · have encodable : ∀ pair ∈ packs.map fun packed => (Key.item, packed), KeyFits .list pair.1 ∧ Encodable pair.2 := by
        intro pair isIn
        obtain ⟨packed, isPacked, rfl⟩ := List.mem_map.mp isIn
        obtain ⟨item, isItem, fits⟩ := each packed isPacked
        exact ⟨trivial, fits.encodable (small_item small isItem)⟩
      have kept : collect .list (packs.map fun packed => (Key.item, packed)) = packs.map fun packed => (Key.item, packed) := by
        refine collect_of_arranged ⟨fun pair isIn => ⟨(encodable pair isIn).1, ?_⟩, fun keyed => absurd rfl keyed⟩
        obtain ⟨packed, -, rfl⟩ := List.mem_map.mp isIn
        rfl
      have loaded : load .list ((packs.map fun packed => (Key.item, packed)).flatMap write_entry) = .ok (packs.map fun packed => (Key.item, packed)) := by
        rw [load_ok_iff, raw_entries_written .list _ encodable, kept]
        exact ⟨⟨[], rfl⟩, rfl⟩
      obtain ⟨results, reads, are⟩ := related_split (fun item packed (fits : Fits size utf8 qt item packed) =>
        fits.reads.imp fun result holds => And.intro holds.2 holds.1) fits
      exact ⟨_, to_packed_entries loaded (fun pair isIn => payload_lt_flatMap isIn) (List.forall₂_map_left_iff.mpr are), results, rfl,
        readsAll_iff.mpr reads⟩

/-! ## Maps -/

def name_key (qt : Qt) (name : QString) : Key := .name (c_str (qt.toUtf8 name))

theorem map_size_eq (entries : List (QString × QVariant)) : map_size size utf8 qt entries = (entries.map fun entry =>
    1 + (qt.toUtf8 entry.1).length + packet_size (type_of utf8 entry.2) (payload_size size utf8 qt entry.2)).sum := by
  induction entries with
  | nil => rfl
  | cons entry rest ih => rw [map_size, List.map_cons, List.sum_cons, ih]

theorem small_entry (small : map_size size utf8 qt entries < 2 ^ 32) {entry : QString × QVariant}
    (isIn : entry ∈ entries) : payload_size size utf8 qt entry.2 < 2 ^ 32 := by
  refine lt_of_le_of_lt ?_ small
  rw [map_size_eq]
  refine le_trans ?_ (List.single_le_sum (by simp) _ (List.mem_map.mpr ⟨entry, isIn, rfl⟩))
  simp only [packet_size]
  omega

/-- The name that a packet has in place of a name. -/
def short_key : Key → Key
  | .name text => .name (text.take (text.length % 256))
  | key => key

theorem write_short (pair : Key × Packed) : write_entry (short_key pair.1, pair.2) = write_entry pair := by
  obtain ⟨key, packed⟩ := pair
  cases key with
  | name text =>
    have length : (text.take (text.length % 256)).length = text.length % 256 := by
      rw [List.length_take]
      exact Nat.min_eq_left (Nat.mod_le _ _)
    have byte : UInt8.ofNat (text.length % 256) = UInt8.ofNat text.length := UInt8.toNat.inj (by simp)
    have kept : (text.take (text.length % 256)).take (text.length % 256) = text.take (text.length % 256) := by
      rw [List.take_take, Nat.min_self]
    simp only [write_entry, short_key, write_key, length, Nat.mod_mod, byte, kept]
  | id value => rfl
  | item => rfl

theorem short_key_string (name : QString) : key_string qt (short_key (name_key qt name)).stored = name_packet qt name := by
  have plain : (0 : UInt8) ∉ (c_str (qt.toUtf8 name)).take ((c_str (qt.toUtf8 name)).length % 256) := by
    intro isIn
    have kept := List.mem_takeWhile_imp (List.mem_of_mem_take isIn)
    simp at kept
  rw [name_key, short_key, Key.stored, c_str_of_plain plain, key_string, name_packet]

theorem collect_has {pairs : List (Key × Packed)} {pair : Key × Packed} (isIn : pair ∈ pairs) : ∃ packed, (pair.1.stored, packed) ∈ collect .map pairs := by
  have found : (find pair.1.stored (collect .map pairs)).isSome := by
    rw [find_collect (by decide), Option.isSome_map, List.find?_isSome]
    exact ⟨pair, isIn, by simp⟩
  obtain ⟨packed, found⟩ := Option.isSome_iff_exists.mp found
  exact ⟨packed, find_mem found⟩

theorem spec_map {pairs : List (Key × Variant)} (possible : ∀ entry ∈ entries, Every Possible entry.2)
    (small : map_size size utf8 qt entries < 2 ^ 32)
    (related : List.Forall₂ (fun entry pair => pair.1 = name_key qt entry.1 ∧ Spec size utf8 qt entry.2 pair.2) entries pairs)
    :
    Spec size utf8 qt (.map entries) (.opened .readWrite .map [] (filled pairs)) where
  direct := by
    obtain ⟨left, right⟩ := related_mem related
    obtain ⟨results, are⟩ : ∃ results, List.Forall₂ (fun pair child => to_qvariant size qt pair.2 = .ok child ∧ ∃ entry ∈ entries,
        key_string qt pair.1 = name_direct qt entry.1 ∧ Reads (name_direct qt) (string_read size utf8 qt) entry.2 child) (filled pairs) results := by
      refine related_exists fun pair isIn => ?_
      obtain ⟨entry, isEntry, name, spec⟩ := right pair (mem_of_filled isIn)
      obtain ⟨result, is, reads⟩ := spec.direct
      exact ⟨result, is, entry, isEntry, by rw [name]; rfl, reads⟩
    have all : to_children size qt (filled pairs) = .ok results := by
      rw [to_children_mapM]
      exact mapM_related (are.imp fun _ _ holds => holds.1)
    refine ⟨to_container qt .map ((filled pairs).map Prod.fst) results, ?_, map_reads (are.imp fun _ _ holds => holds.2) fun entry isIn => ?_⟩
    · simp only [to_qvariant, all, bind, Except.bind, pure, Except.pure]
    · obtain ⟨pair, isPair, name, -⟩ := left entry isIn
      obtain ⟨variant, found⟩ := filled_has isPair
      exact ⟨_, found, by rw [name]; rfl⟩
  packs := by
    obtain ⟨packs, fits, keyed⟩ : ∃ packs : List (Key × Packed), List.Forall₂ (fun entry pack => pack.1 = name_key qt entry.1 ∧
        Fits size utf8 qt entry.2 pack.2) entries packs ∧ List.Forall₂ (Keyed Built) pairs packs := by
      refine related_split (fun entry pair holds => ?_) related
      obtain ⟨packed, built, fits⟩ := holds.2.packs
      exact ⟨(pair.1, packed), ⟨holds.1, fits⟩, rfl, built⟩
    have kept : List.Forall₂ (Keyed Built) (filled pairs) (filled packs) := forall₂_arrange .map keyed
    obtain ⟨left, right⟩ := related_mem fits
    have written : (filled packs).flatMap write_entry = ((filled packs).map fun pack => (short_key pack.1, pack.2)).flatMap write_entry := by
      rw [List.flatMap_map]
      exact List.flatMap_congr fun pack _ => (write_short pack).symm
    have encodable : ∀ pack ∈ (filled packs).map fun pack => (short_key pack.1, pack.2), KeyFits .map pack.1 ∧ Encodable pack.2 := by
      intro pack isIn
      obtain ⟨other, isOther, rfl⟩ := List.mem_map.mp isIn
      obtain ⟨entry, isEntry, name, fits⟩ := right other (mem_of_filled isOther)
      refine ⟨?_, fits.encodable (small_entry small isEntry)⟩
      rw [name]
      exact (List.length_take_le _ _).trans_lt (Nat.mod_lt _ (by decide))
    have loaded : load .map ((filled packs).flatMap write_entry) = .ok (collect .map ((filled packs).map fun pack => (short_key pack.1, pack.2))) := by
      rw [written, load_ok_iff, raw_entries_written .map _ encodable]
      exact ⟨⟨[], rfl⟩, rfl⟩
    have comes : ∀ pair ∈ collect .map ((filled packs).map fun pack => (short_key pack.1, pack.2)), ∃ pack ∈ filled packs, pair.2 = pack.2 ∧
        ∃ entry ∈ entries, key_string qt pair.1 = name_packet qt entry.1 ∧ Fits size utf8 qt entry.2 pack.2 := by
      intro pair isIn
      obtain ⟨key, isKey, stored⟩ := mem_collect isIn
      obtain ⟨pack, isPack, same⟩ := List.mem_map.mp isKey
      obtain ⟨entry, isEntry, name, fits⟩ := right pack (mem_of_filled isPack)
      refine ⟨pack, isPack, (Prod.mk.inj same).2.symm, entry, isEntry, ?_, fits⟩
      rw [stored, ← (Prod.mk.inj same).1, name, short_key_string]
    obtain ⟨results, are⟩ : ∃ results, List.Forall₂ (fun pair child => (∀ fuel, pair.2.payload.length < fuel → to_packed size qt fuel pair.2 = .ok child) ∧
        ∃ entry ∈ entries, key_string qt pair.1 = name_packet qt entry.1 ∧ Reads (name_packet qt) (string_read size utf8 qt) entry.2 child)
        (collect .map ((filled packs).map fun pack => (short_key pack.1, pack.2))) results := by
      refine related_exists fun pair isIn => ?_
      obtain ⟨pack, -, same, entry, isEntry, name, fits⟩ := comes pair isIn
      obtain ⟨result, is, reads⟩ := fits.reads
      exact ⟨result, same ▸ is, entry, isEntry, name, reads⟩
    refine ⟨_, mk_payload_entries kept, kind_type_ne_empty .map, ?_, _, to_packed_entries loaded (fun pair isIn => ?_) (are.imp fun _ _ holds => holds.1),
      map_reads (are.imp fun _ _ holds => holds.2) fun entry isIn => ?_⟩
    · rw [payload_size, map_size_eq, List.length_flatMap]
      refine (filled_cost (fun pack => (write_entry pack).length) packs).trans ?_
      clear keyed kept left right written encodable loaded comes are small related
      induction fits with
      | nil => exact le_rfl
      | @cons entry pack entries packs first later ih =>
        obtain ⟨key, packed⟩ := pack
        obtain ⟨rfl, fits⟩ := first
        have head : (to_packet packed).length ≤ packet_size (type_of utf8 entry.2) (payload_size size utf8 qt entry.2) :=
          to_packet_fits (possible _ (by simp)) fits
        have rest := ih fun entry isIn => possible entry (List.mem_cons_of_mem _ isIn)
        have name : (c_str (qt.toUtf8 entry.1)).length ≤ (qt.toUtf8 entry.1).length := (List.takeWhile_prefix _).length_le
        have length : (write_entry (name_key qt entry.1, packed)).length ≤ 1 + (qt.toUtf8 entry.1).length + (to_packet packed).length := by
          simp only [write_entry, name_key, write_key, List.length_append, List.length_cons, List.length_take]
          omega
        simp only [List.map_cons, List.sum_cons]
        omega
    · obtain ⟨pack, isPack, same, -⟩ := comes pair isIn
      rw [same]
      exact payload_lt_flatMap isPack
    · obtain ⟨pack, isPack, name, -⟩ := left entry isIn
      obtain ⟨packed, found⟩ := filled_has isPack
      obtain ⟨other, isOther⟩ := collect_has (List.mem_map.mpr ⟨_, found, rfl⟩)
      exact ⟨_, isOther, by rw [name, short_key_string]⟩

/-! ## Trees -/

variable {result : List (Key × Variant)}

theorem from_list_ok (built : from_list size utf8 qt kept items = .ok result) :
    ∃ variants, List.Forall₂ (fun item variant => from_qvariant size utf8 qt item = .ok variant) items variants ∧
      result = variants.foldl (fun kept variant => store .list kept .item variant) kept := by
  induction items generalizing kept with
  | nil =>
    rw [from_list] at built
    exact ⟨[], .nil, (Except.ok.inj built).symm⟩
  | cons item rest ih =>
    rw [from_list] at built
    obtain ⟨variant, first, later⟩ := HelperCommand.bind_ok_iff.mp built
    obtain ⟨variants, related, rfl⟩ := ih later
    exact ⟨variant :: variants, .cons first related, rfl⟩

theorem from_map_ok (built : from_map size utf8 qt kept entries = .ok result) :
    ∃ pairs : List (Key × Variant), List.Forall₂ (fun entry pair => pair.1 = name_key qt entry.1 ∧ from_qvariant size utf8 qt entry.2 = .ok pair.2) entries pairs ∧
      result = pairs.foldl (fun kept pair => store .map kept pair.1 pair.2) kept := by
  induction entries generalizing kept with
  | nil =>
    rw [from_map] at built
    exact ⟨[], .nil, (Except.ok.inj built).symm⟩
  | cons entry rest ih =>
    obtain ⟨name, value⟩ := entry
    rw [from_map] at built
    obtain ⟨variant, first, later⟩ := HelperCommand.bind_ok_iff.mp built
    obtain ⟨kept, inserted, later⟩ := HelperCommand.bind_ok_iff.mp later
    cases inserted
    obtain ⟨pairs, related, rfl⟩ := ih later
    exact ⟨(name_key qt name, variant) :: pairs, .cons ⟨rfl, first⟩ related, rfl⟩

theorem from_hash_ok (built : from_hash size utf8 qt kept entries = .ok result) : entries = [] ∧ result = kept := by
  cases entries with
  | nil =>
    rw [from_hash] at built
    exact ⟨rfl, (Except.ok.inj built).symm⟩
  | cons entry rest =>
    obtain ⟨name, value⟩ := entry
    rw [from_hash] at built
    obtain ⟨variant, -, later⟩ := HelperCommand.bind_ok_iff.mp built
    obtain ⟨kept, impossible, -⟩ := HelperCommand.bind_ok_iff.mp later
    cases impossible

theorem from_strings (kept : List (Key × Variant)) (texts : List QString) : from_list size utf8 qt kept (texts.map .string) =
    .ok (kept ++ texts.map fun text => (.item, .raw .readWrite (from_string size utf8 qt text))) := by
  induction texts generalizing kept with
  | nil => simp [from_list]
  | cons text rest ih =>
    simp only [List.map_cons, from_list, from_qvariant, bind, Except.bind, ih]
    simp [store, assign]

theorem spec_items (possible : ∀ item ∈ items, Every Possible item) (small : list_size size utf8 qt items < 2 ^ 32)
    (built : from_list size utf8 qt [] items = .ok kept)
    (each : ∀ item ∈ items, ∀ variant, from_qvariant size utf8 qt item = .ok variant → Spec size utf8 qt item variant) :
    Spec size utf8 qt (.list items) (.opened .readWrite .list [] kept) := by
  obtain ⟨variants, related, rfl⟩ := from_list_ok built
  have specs : List.Forall₂ (Spec size utf8 qt) items variants := by
    clear built possible small
    induction related with
    | nil => exact .nil
    | cons first later ih =>
      exact .cons (each _ (by simp) _ first) (ih fun item isIn => each item (List.mem_cons_of_mem _ isIn))
  have shared : ∀ kept, variants.foldl (fun kept variant => store .list kept .item variant) kept = kept ++ variants.map fun variant => (.item, variant) := by
    have each := (related_mem specs).2
    clear built possible small related specs
    induction variants with
    | nil => simp
    | cons variant rest ih =>
      intro kept
      obtain ⟨item, -, spec⟩ := each variant (by simp)
      rw [List.foldl_cons, ih fun other isIn => each other (List.mem_cons_of_mem _ isIn), store, spec.shared]
      simp
  rw [shared, List.nil_append]
  exact spec_list possible small specs

theorem spec_entries (possible : ∀ entry ∈ entries, Every Possible entry.2)
    (small : map_size size utf8 qt entries < 2 ^ 32) (built : from_map size utf8 qt [] entries = .ok kept)
    (each : ∀ entry ∈ entries, ∀ variant, from_qvariant size utf8 qt entry.2 = .ok variant → Spec size utf8 qt entry.2 variant)
    : Spec size utf8 qt (.map entries) (.opened .readWrite .map [] kept) := by
  obtain ⟨pairs, related, rfl⟩ := from_map_ok built
  have specs : List.Forall₂ (fun entry pair => pair.1 = name_key qt entry.1 ∧ Spec size utf8 qt entry.2 pair.2) entries pairs := by
    clear built possible small
    induction related with
    | nil => exact .nil
    | cons first later ih =>
      exact .cons ⟨first.1, each _ (by simp) _ first.2⟩ (ih fun entry isIn => each entry (List.mem_cons_of_mem _ isIn))
  have shared : ∀ kept, pairs.foldl (fun kept pair => store .map kept pair.1 pair.2) kept = pairs.foldl (fun kept pair => put pair.1 pair.2 kept) kept := by
    have each := (related_mem specs).2
    clear built possible small related specs
    induction pairs with
    | nil => exact fun kept => rfl
    | cons pair rest ih =>
      intro kept
      obtain ⟨entry, -, -, spec⟩ := each pair (by simp)
      rw [List.foldl_cons, List.foldl_cons, ih fun other isIn => each other (List.mem_cons_of_mem _ isIn), store, spec.shared, ite_self]
      exact fun impossible => by cases impossible
  rw [shared]
  exact spec_map possible small specs

theorem reads_strings {g h : QString → QString} {texts : List QString} {result : QVariant} (reads : Reads g h (.list (texts.map .string)) result) :
    Reads g h (.stringList texts) result := by
  obtain ⟨others, rfl, related⟩ := reads
  rw [readsAll_iff, List.forall₂_map_left_iff] at related
  have same : others = texts.map fun text => .string (h text) := by
    induction related with
    | nil => rfl
    | cons first later ih => rw [List.map_cons, ← ih, show _ = QVariant.string _ from first]
  rw [Reads, same]

theorem spec_strings {texts : List QString} {variant : Variant} (small : payload_size size utf8 qt (.stringList texts) < 2 ^ 32)
    (built : from_qvariant size utf8 qt (.stringList texts) = .ok variant) : Spec size utf8 qt (.stringList texts) variant := by
  cases built
  have size_eq : list_size size utf8 qt (texts.map .string) = payload_size size utf8 qt (.stringList texts) := by
    rw [list_size_eq, payload_size, List.map_map]
    rfl
  have all : ∀ item ∈ texts.map QVariant.string, Every Possible item := by simp [Every, Possible]
  have spec := spec_items all (size_eq ▸ small) (from_strings [] texts) fun item isIn variant built => by
    obtain ⟨text, isText, rfl⟩ := List.mem_map.mp isIn
    cases built
    exact spec_string (small_item (size_eq ▸ small) isIn)
  obtain ⟨packed, built, fits⟩ := spec.packs
  obtain ⟨result, is, reads⟩ := fits.reads
  obtain ⟨direct, isDirect, readsDirect⟩ := spec.direct
  have short : packed.payload.length ≤ payload_size size utf8 qt (.stringList texts) := fits.short.trans_eq size_eq
  exact ⟨⟨direct, isDirect, reads_strings readsDirect⟩, packed, built, fits.typed, short, result, is, reads_strings reads⟩

theorem from_spec : ∀ {variant : Variant}, Every Possible value → payload_size size utf8 qt value < 2 ^ 32 →
    from_qvariant size utf8 qt value = .ok variant → Spec size utf8 qt value variant := by
  induction value using induct with
  | map entries ih =>
    intro variant possible small built
    rw [from_qvariant] at built
    obtain ⟨kept, inside, is⟩ := HelperCommand.bind_ok_iff.mp built
    cases is
    have each := everyEntry_iff.mp possible.2
    exact spec_entries each small inside fun entry isIn variant => ih entry isIn (each entry isIn) (small_entry small isIn)
  | hash entries ih =>
    intro variant possible small built
    rw [from_qvariant] at built
    obtain ⟨kept, inside, is⟩ := HelperCommand.bind_ok_iff.mp built
    cases is
    obtain ⟨rfl, rfl⟩ := from_hash_ok inside
    refine ⟨⟨.map [], rfl, rfl, rfl⟩, ⟨VAR_TYPE_MAP, []⟩, ⟨rfl, rfl, rfl⟩, by decide, le_rfl, .map [], fun fuel enough => ?_, rfl, rfl⟩
    obtain ⟨fuel, rfl⟩ := Nat.exists_eq_add_of_lt enough
    rfl
  | list items ih =>
    intro variant possible small built
    rw [from_qvariant] at built
    obtain ⟨kept, inside, is⟩ := HelperCommand.bind_ok_iff.mp built
    cases is
    have each := everyItem_iff.mp possible.2
    exact spec_items each small inside fun item isIn variant => ih item isIn (each item isIn) (small_item small isIn)
  | leaf value noMap noHash noList =>
    intro variant possible small built
    by_cases strings : ∃ texts, value = .stringList texts
    · obtain ⟨texts, rfl⟩ := strings
      exact spec_strings small built
    · have node : Possible value := by
        cases value with
        | map entries => exact possible.1
        | hash entries => exact possible.1
        | list items => exact possible.1
        | _ => exact possible
      exact spec_leaves node small noMap noHash noList (fun texts same => strings ⟨texts, same⟩) built

theorem from_list_total (each : ∀ item ∈ items, ∃ variant, from_qvariant size utf8 qt item = .ok variant)
    (kept : List (Key × Variant)) : ∃ result, from_list size utf8 qt kept items = .ok result := by
  induction items generalizing kept with
  | nil => exact ⟨kept, by rw [from_list]⟩
  | cons item rest ih =>
    obtain ⟨variant, built⟩ := each item (by simp)
    obtain ⟨result, later⟩ := ih (fun item isIn => each item (List.mem_cons_of_mem _ isIn)) (store .list kept .item variant)
    exact ⟨result, by rw [from_list, built]; exact later⟩

theorem from_map_total (each : ∀ entry ∈ entries, ∃ variant, from_qvariant size utf8 qt entry.2 = .ok variant)
    (kept : List (Key × Variant)) : ∃ result, from_map size utf8 qt kept entries = .ok result := by
  induction entries generalizing kept with
  | nil => exact ⟨kept, by rw [from_map]⟩
  | cons entry rest ih =>
    obtain ⟨name, value⟩ := entry
    obtain ⟨variant, built⟩ := each (name, value) (by simp)
    obtain ⟨result, later⟩ := ih (fun entry isIn => each entry (List.mem_cons_of_mem _ isIn)) (store .map kept (name_key qt name) variant)
    exact ⟨result, by rw [from_map, built]; exact later⟩

theorem from_total {g h : QString → QString} {value : QVariant} (fixed : Every (FixedNode g h) value) :
    ∃ variant, from_qvariant size utf8 qt value = .ok variant := by
  induction value using induct with
  | map entries ih =>
    have each := everyEntry_iff.mp fixed.2
    obtain ⟨kept, built⟩ := from_map_total (fun entry isIn => ih entry isIn (each entry isIn)) []
    exact ⟨_, by rw [from_qvariant, built]; rfl⟩
  | hash entries ih => exact absurd fixed.1 id
  | list items ih =>
    have each := everyItem_iff.mp fixed.2
    obtain ⟨kept, built⟩ := from_list_total (fun item isIn => ih item isIn (each item isIn)) []
    exact ⟨_, by rw [from_qvariant, built]; rfl⟩
  | leaf value noMap noHash noList =>
    cases value with
    | map entries => exact absurd rfl (noMap entries)
    | hash entries => exact absurd rfl (noHash entries)
    | list items => exact absurd rfl (noList items)
    | _ => exact ⟨_, by rw [from_qvariant]⟩

theorem every_mono {holds other : QVariant → Prop} (weaker : ∀ value, holds value → other value)
    (all : Every holds value) : Every other value := by
  induction value using induct with
  | map entries ih =>
    have each := everyEntry_iff.mp all.2
    exact ⟨weaker _ all.1, everyEntry_iff.mpr fun entry isIn => ih entry isIn (each entry isIn)⟩
  | hash entries ih =>
    have each := everyEntry_iff.mp all.2
    exact ⟨weaker _ all.1, everyEntry_iff.mpr fun entry isIn => ih entry isIn (each entry isIn)⟩
  | list items ih =>
    have each := everyItem_iff.mp all.2
    exact ⟨weaker _ all.1, everyItem_iff.mpr fun item isIn => ih item isIn (each item isIn)⟩
  | leaf value noMap noHash noList =>
    cases value with
    | map entries => exact absurd rfl (noMap entries)
    | hash entries => exact absurd rfl (noHash entries)
    | list items => exact absurd rfl (noList items)
    | _ => exact weaker _ all

theorem fixed_packet_iff (converts : Converts qt) (value : QVariant) :
    FixedNode (name_packet qt) (string_read size utf8 qt) value ↔ CarriedNode size utf8 qt value := by
  cases value with
  | map entries =>
    simp only [FixedNode, CarriedNode]
    exact forall₂_congr fun entry _ => by rw [name_packet_iff converts, good_iff, and_assoc]
  | string text => exact string_read_iff converts text
  | stringList texts => exact forall₂_congr fun text _ => string_read_iff converts text
  | _ => rfl

theorem fixed_direct (converts : Converts qt) (carried : CarriedNode size utf8 qt value) :
    FixedNode (name_direct qt) (string_read size utf8 qt) value := by
  cases value with
  | map entries =>
    intro entry isIn
    obtain ⟨wellFormed, noNul, -⟩ := carried entry isIn
    exact (name_direct_iff converts entry.1).mpr ((good_iff entry.1).mpr ⟨wellFormed, noNul⟩)
  | string text => exact (string_read_iff converts text).mpr carried
  | stringList texts => exact fun text isIn => (string_read_iff converts text).mpr (carried text isIn)
  | hash entries => exact carried
  | _ => trivial

theorem direct_of (converts : Converts qt) (accepted : Accepted size utf8 qt value)
    (fixed : Every (FixedNode (name_direct qt) (string_read size utf8 qt)) value) : Direct size utf8 qt value := by
  have small : payload_size size utf8 qt value < 2 ^ 32 := accepted.2.trans (by decide)
  obtain ⟨variant, built⟩ := @from_total size utf8 qt _ _ _ fixed
  obtain ⟨result, is, reads⟩ := (from_spec accepted.1 small built).direct
  exact ⟨variant, result, built, is, (same_iff (name_direct_stable converts) accepted.1 reads).mpr fixed⟩

theorem packet_iff (converts : Converts qt) (accepted : Accepted size utf8 qt value) :
    Packet size utf8 qt value ↔ Every (FixedNode (name_packet qt) (string_read size utf8 qt)) value := by
  have small : payload_size size utf8 qt value < 2 ^ 32 := accepted.2.trans (by decide)
  have travels : ∀ {variant : Variant}, from_qvariant size utf8 qt value = .ok variant → ∃ packet read after result,
      to_packet_variant variant = .ok packet ∧ from_packet_variant .readOnly ⟨packet, 0⟩ = .ok (read, after) ∧ to_qvariant size qt read = .ok result ∧
      Reads (name_packet qt) (string_read size utf8 qt) value result := by
    intro variant built
    obtain ⟨packed, isBuilt, fits⟩ := (from_spec accepted.1 small built).packs
    obtain ⟨result, is, reads⟩ := fits.reads
    have arrives := from_packet_to_packet packed (fits.encodable small) [] 0
    rw [List.append_nil] at arrives
    have received : from_packet_variant .readOnly ⟨to_packet packed, 0⟩ = .ok (.raw .readOnly packed, ⟨[], 0 + (to_packet packed).length⟩) := by
      simp only [from_packet_variant, arrives, bind, Except.bind, pure, Except.pure]
    refine ⟨to_packet packed, _, _, result, ?_, received, is _ (Nat.lt_succ_self _), reads⟩
    simp only [to_packet_variant, isBuilt.payload, isBuilt.type, bind, Except.bind, pure, Except.pure]
  constructor
  · rintro ⟨variant, packet, read, after, result, built, sent, received, is, same⟩
    obtain ⟨packet', read', after', result', sent', received', is', reads⟩ := travels built
    cases Except.ok.inj (sent.symm.trans sent')
    cases Except.ok.inj (received.symm.trans received')
    cases Except.ok.inj (is.symm.trans is')
    exact (same_iff (name_packet_stable converts) accepted.1 reads).mp same
  · intro fixed
    obtain ⟨variant, built⟩ := @from_total size utf8 qt _ _ _ fixed
    obtain ⟨packet, read, after, result, sent, received, is, reads⟩ := travels built
    exact ⟨variant, packet, read, after, result, built, sent, received, is, (same_iff (name_packet_stable converts) accepted.1 reads).mpr fixed⟩

end

/-- The characters of a text; a surrogate without its partner is replaced. -/
def characters : QString → List Char
  | [] => []
  | [unit] => [if 0xD800 ≤ unit.toNat ∧ unit.toNat < 0xE000 then Char.ofNat 0xFFFD else Char.ofNat unit.toNat]
  | unit :: next :: rest =>
    if 0xD800 ≤ unit.toNat ∧ unit.toNat < 0xDC00 ∧ 0xDC00 ≤ next.toNat ∧ next.toNat < 0xE000 then
      Char.ofNat (0x10000 + (unit.toNat - 0xD800) * 0x400 + (next.toNat - 0xDC00)) :: characters rest
    else (if 0xD800 ≤ unit.toNat ∧ unit.toNat < 0xE000 then Char.ofNat 0xFFFD else Char.ofNat unit.toNat) :: characters (next :: rest)

def Piece.shown : Piece → Char
  | .char c => c
  | .ill _ => Char.ofNat 0xFFFD

/-- Qt with one replacement character for each ill-formed piece. -/
def plainQt : Qt where
  toUtf8 text := utf8Of (characters text)
  fromUtf8 bytes := utf16 ((pieces none bytes).map Piece.shown)
  fromLatin1 := HelperClient.word
  fromLocal8Bit bytes := utf16 ((pieces none bytes).map Piece.shown)
  toStdWString text := (characters text).map Char.val
  fromWCharArray units := utf16 (units.map fun w => Char.ofNat w.toNat)
  toULongLong _ := none
  toMap _ := []
  toList _ := []
  toByteArray _ := []
  toString _ := []

theorem characters_plain {unit : UInt16} (plain : ¬ (0xD800 ≤ unit.toNat ∧ unit.toNat < 0xE000)) (rest : QString) :
    characters (unit :: rest) = Char.ofNat unit.toNat :: characters rest := by
  cases rest with
  | nil => simp only [characters, if_neg plain]
  | cons next rest => rw [characters, if_neg (by omega), if_neg plain]

theorem characters_utf16 (chars : List Char) : characters (utf16 chars) = chars := by
  induction chars with
  | nil => rfl
  | cons c chars ih =>
    have valid : c.val.toNat.isValidChar := c.valid
    have scalar := valid
    simp only [Nat.isValidChar] at scalar
    have isValue : Char.ofNat c.val.toNat = c := c.ofNat_toNat
    rw [utf16, List.flatMap_cons, List.map_append, units_of]
    by_cases small : c.val < 0x10000
    · have bound := UInt32.lt_iff_toNat_lt.mp small
      simp only [UInt32.reduceToNat] at bound
      have value : c.val.toUInt16.toNat = c.val.toNat := by
        rw [UInt32.toNat_toUInt16]
        exact Nat.mod_eq_of_lt bound
      rw [if_pos (.inr small), List.map_singleton, List.singleton_append, characters_plain (by omega), value, isValue]
      exact congrArg (c :: ·) ih
    · have large : 0x10000 ≤ c.val.toNat := not_lt.mp fun below => small (UInt32.lt_iff_toNat_lt.mpr below)
      obtain ⟨first, second⟩ := surrogate_toNat large
      have firstValue : (0xD800 + (c.val - 0x10000) / 0x400).toUInt16.toNat = 0xD800 + (c.val.toNat - 0x10000) / 0x400 := by
        rw [UInt32.toNat_toUInt16, first]
        omega
      have secondValue : (0xDC00 + (c.val - 0x10000) % 0x400).toUInt16.toNat = 0xDC00 + (c.val.toNat - 0x10000) % 0x400 := by
        rw [UInt32.toNat_toUInt16, second]
        omega
      have whole : 0x10000 + (0xD800 + (c.val.toNat - 0x10000) / 0x400 - 0xD800) * 0x400 + (0xDC00 + (c.val.toNat - 0x10000) % 0x400 - 0xDC00) =
          c.val.toNat := by omega
      rw [if_neg (not_or.mpr ⟨by decide, small⟩), List.map_cons, List.map_singleton, List.cons_append, List.singleton_append, characters,
        firstValue, secondValue, if_pos (by omega), whole, isValue]
      exact congrArg (c :: ·) ih

theorem plainQt_converts : Converts plainQt where
  toUtf8 chars := congrArg utf8Of (characters_utf16 chars)
  toUtf8_valid text := ⟨_, rfl⟩
  fromUtf8 chars part c starts unfinished := by
    have read : (pieces none (utf8Of chars ++ part)).map Piece.shown = chars ++ (pieces none part).map Piece.shown := by
      rw [utf8Of, pieces_encode, List.map_append, List.map_map]
      exact congrArg (· ++ _) (List.map_id chars)
    by_cases ended : part = []
    · refine ⟨0, Nat.zero_le _, congrArg utf16 (read.trans ?_)⟩
      rw [ended]
      rfl
    · refine ⟨1, List.length_pos_of_ne_nil ended, congrArg utf16 (read.trans ?_)⟩
      rw [pieces_part starts unfinished ended]
      rfl
  toStdWString chars := congrArg (List.map Char.val) (characters_utf16 chars)
  toStdWString_valid text := ⟨_, rfl⟩
  fromWCharArray chars := by
    refine congrArg utf16 ?_
    rw [List.map_map]
    exact (List.map_congr_left fun c _ => c.ofNat_toNat).trans (List.map_id chars)

/-- A list of a number and a string under `a`. -/
def sample : QVariant := .map [([0x61], .list [.int (-1), .string [0xE9], .bool true])]

end TaskExplorer.QVariantTrees
