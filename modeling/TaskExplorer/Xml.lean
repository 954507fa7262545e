import TaskExplorer.ByteText
import TaskExplorer.HelperReads

/-!
# Variants in XML

`CXml` writes a tree of `QVariant`s as elements, one for each node, and reads it back with a loop over what
the reader comes to. Texts are percent-encoded, byte arrays are in Base64.
-/

namespace TaskExplorer.Xml
open ByteText OrderedMap Utf8
open HelperClient (filled)
open HelperReads (Single mem_filled mem_of_filled filled_sorted)

abbrev QString := List Char

/-! ## Trees -/

/-- The types that a tree is made of. -/
inductive QType where
  | Invalid | Bool | Int | UInt | LongLong | ULongLong | Map | List | String | StringList | ByteArray | Hash
deriving DecidableEq

/-- The entries of a map or a hash stand in the order they are walked in. -/
inductive QVariant where
  | invalid
  | bool (value : Bool)
  | int (value : Int32)
  | uint (value : UInt32)
  | longLong (value : Int64)
  | uLongLong (value : UInt64)
  | string (text : QString)
  | byteArray (bytes : Bytes)
  | map (entries : List (QString × QVariant))
  | hash (entries : List (QString × QVariant))
  | list (items : List QVariant)
  | stringList (items : List QString)

def QVariant.type : QVariant → QType
  | invalid => .Invalid
  | bool _ => .Bool
  | int _ => .Int
  | uint _ => .UInt
  | longLong _ => .LongLong
  | uLongLong _ => .ULongLong
  | string _ => .String
  | byteArray _ => .ByteArray
  | map _ => .Map
  | hash _ => .Hash
  | list _ => .List
  | stringList _ => .StringList

/-- `SQVariants::Map`, in the order of its keys. -/
def SQVariants : List (QString × QType) :=
  [("Bool".toList, .Bool), ("ByteArray".toList, .ByteArray), ("Hash".toList, .Hash), ("Int".toList, .Int), ("Invalid".toList, .Invalid),
    ("List".toList, .List), ("LongLong".toList, .LongLong), ("Map".toList, .Map), ("String".toList, .String), ("StringList".toList, .StringList),
    ("UInt".toList, .UInt), ("ULongLong".toList, .ULongLong)]

def GetTypeStr (type : QType) : QString := ((SQVariants.find? (·.2 = type)).map (·.1)).getD "Invalid".toList

def GetType (type : QString) : QType := ((SQVariants.find? (·.1 = type)).map (·.2)).getD .Invalid

/-! ## What Qt brings -/

/-- `QString::toLatin1`. -/
def toLatin1 (s : QString) : Bytes := s.map fun c => if c.toNat < 256 then c.toNat.toUInt8 else 63

/-- The characters of bytes that are ASCII. -/
def ascii (bytes : Bytes) : QString := bytes.map fun byte => Char.ofNat byte.toNat

def hex_digit (d : UInt8) : UInt8 := if d < 10 then 48 + d else 55 + d

def hex_value (c : UInt8) : UInt8 :=
  if 48 ≤ c ∧ c ≤ 57 then c - 48 else if 97 ≤ c ∧ c ≤ 102 then c - 87 else if 65 ≤ c ∧ c ≤ 70 then c - 55 else c

/-- What `toPercentEncoding(" :;/|,'+()")` leaves as it is. -/
def is_left (c : UInt8) : Bool :=
  (97 ≤ c && c ≤ 122) || (65 ≤ c && c ≤ 90) || (48 ≤ c && c ≤ 57) || c ∈ toUtf8 "-._~ :;/|,'+()".toList

def toPercentEncoding (bytes : Bytes) : Bytes := bytes.flatMap fun c => if is_left c then [c] else [37, hex_digit (c / 16), hex_digit (c % 16)]

def fromPercentEncoding : Bytes → Bytes
  | c :: a :: b :: rest => if c = 37 then (hex_value a * 16 + hex_value b) :: fromPercentEncoding rest else c :: fromPercentEncoding (a :: b :: rest)
  | bytes => bytes

/-- The names of elements, and Base64 in ASCII. -/
structure Qt where
  valid : QString → Bool
  variant_valid : valid "Variant".toList = true
  toBase64 : Bytes → Bytes
  fromBase64 : Bytes → Bytes
  base64_ascii : ∀ bytes, ∀ c ∈ toBase64 bytes, c.toNat < 0x80
  base64_back : ∀ bytes, fromBase64 (toBase64 bytes) = bytes

/-- `QVariant::toString`. -/
def to_string : QVariant → QString
  | .bool value => if value then "true".toList else "false".toList
  | .int value => ascii (decimal value.toInt)
  | .uint value => ascii (decimal value.toNat)
  | .longLong value => ascii (decimal value.toInt)
  | .uLongLong value => ascii (decimal value.toNat)
  | .string text => text
  | .byteArray bytes => fromUtf8 bytes
  | _ => []

local instance same_texts : LawfulBEq QString := inferInstance

/-- `QVariant::convert` of a string. What fits no number becomes 0; a container never gets here. -/
def convert (text : QString) : QType → QVariant
  | .Bool => .bool !(text.map Char.toLower ∈ [[], "0".toList, "false".toList])
  | .Int => .int (match to_signed (toLatin1 text) with | some n => if -2 ^ 31 ≤ n ∧ n < 2 ^ 31 then Int32.ofInt n else 0 | none => 0)
  | .UInt => .uint (UInt32.ofNat ((to_unsigned (2 ^ 32) 10 (toLatin1 text)).getD 0))
  | .LongLong => .longLong (Int64.ofInt ((to_signed (toLatin1 text)).getD 0))
  | .ULongLong => .uLongLong (UInt64.ofNat ((to_unsigned (2 ^ 64) 10 (toLatin1 text)).getD 0))
  | .ByteArray => .byteArray (toUtf8 text)
  | _ => .string text

/-! ## The document -/

/-- What is asked of `QXmlStreamWriter`: an element has its name and its type. -/
inductive Token where
  | startDocument
  | startElement (name type : QString)
  | characters (text : QString)
  | endElement
  | endDocument

/-- The line break and the indentation of automatic formatting. -/
def indent (depth : Nat) : Token := .characters ('\n' :: List.replicate (4 * depth) ' ')

/-- Automatic formatting: a tag goes on a line of its own where nothing but tags stands before it, unless it closes what was opened last. -/
def auto_format (wroteSomething lastWasStartElement : Bool) (depth : Nat) : List Token → List Token
  | [] => []
  | .startElement name type :: rest =>
    (if wroteSomething then [] else [indent depth]) ++ .startElement name type :: auto_format false true (depth + 1) rest
  | .characters text :: rest => .characters text :: auto_format true lastWasStartElement depth rest
  | .endElement :: rest =>
    (if wroteSomething || lastWasStartElement then [] else [indent (depth - 1)]) ++ .endElement :: auto_format false false (depth - 1) rest
  | .startDocument :: rest => .startDocument :: auto_format wroteSomething lastWasStartElement depth rest
  | .endDocument :: rest => .endDocument :: auto_format wroteSomething lastWasStartElement depth rest

/-- What `QXmlStreamReader` comes to. -/
inductive Event where
  | startDocument
  | startElement (name type : QString)
  | characters (text : QString)
  | endElement
  | endDocument
  | error

/-- The local name. A prefix has to be declared, and only that of XML itself is. -/
def local_name (qt : Qt) (name : QString) : Option QString :=
  let rest := (name.dropWhile (· ≠ ':')).tail
  if qt.valid name then
    if ':' ∈ name then (if name.takeWhile (· ≠ ':') = "xml".toList ∧ ':' ∉ rest ∧ qt.valid rest then some rest else none) else some name
  else none

/-- Reading stops at an error. -/
def read (qt : Qt) : List Token → List Event
  | [] => []
  | .startDocument :: rest => .startDocument :: read qt rest
  | .startElement name type :: rest =>
    match local_name qt name with
    | some name => .startElement name type :: read qt rest
    | none => [.error]
  | .characters text :: rest => if text = [] then read qt rest else .characters text :: read qt rest
  | .endElement :: rest => .endElement :: read qt rest
  | .endDocument :: rest => .endDocument :: read qt rest

/-! ## `CXml::Serialize` -/

/-- The text of a leaf. -/
def leaf_text (qt : Qt) (bLazy : Bool) (Variant : QVariant) : QString :=
  match Variant, bLazy with
  | .byteArray bytes, false => ascii (qt.toBase64 bytes)
  | _, _ => ascii (toPercentEncoding (toUtf8 (to_string Variant)))

mutual
def Serialize (qt : Qt) (bLazy : Bool) (Name : QString) : QVariant → List Token
  | .map entries => .startElement Name (GetTypeStr .Map) :: serialize_entries qt bLazy entries ++ [.endElement]
  | .hash entries => .startElement Name (GetTypeStr .Hash) :: serialize_entries qt bLazy entries ++ [.endElement]
  | .list items => .startElement Name (GetTypeStr .List) :: serialize_items qt bLazy items ++ [.endElement]
  | .stringList items => .startElement Name (GetTypeStr .StringList) ::
      items.flatMap (fun text => [.startElement "Variant".toList (GetTypeStr .String), .characters (leaf_text qt bLazy (.string text)), .endElement]) ++
        [.endElement]
  | .invalid => [.startElement Name (GetTypeStr .Invalid), .endElement]
  | leaf => [.startElement Name (GetTypeStr leaf.type), .characters (leaf_text qt bLazy leaf), .endElement]

def serialize_entries (qt : Qt) (bLazy : Bool) : List (QString × QVariant) → List Token
  | [] => []
  | (key, value) :: rest => Serialize qt bLazy key value ++ serialize_entries qt bLazy rest

def serialize_items (qt : Qt) (bLazy : Bool) : List QVariant → List Token
  | [] => []
  | item :: rest => Serialize qt bLazy "Variant".toList item ++ serialize_items qt bLazy rest
end

/-- The document of a variant, in a debug build with automatic formatting. -/
def document (qt : Qt) (bLazy formatting : Bool) (Variant : QVariant) : List Token :=
  let tokens := .startDocument :: Serialize qt bLazy "Variant".toList Variant ++ [.endDocument]
  if formatting then auto_format false false 0 tokens else tokens

/-! ## `CXml::Parse` -/

/-- What a call leaves: whether it came to an element, the `Name` and the `Variant` it was given, and where the reader is. -/
structure Parsed where
  found : Bool
  Name : QString
  Variant : QVariant
  xml : List Event

/-- What a leaf becomes at the end of its element. -/
def leaf_value (qt : Qt) (bLazy : Bool) (eType : QType) (Text : QString) : QVariant :=
  if eType = .ByteArray ∧ bLazy = false then .byteArray (qt.fromBase64 (toLatin1 Text))
  else if eType = .Invalid then .string (fromUtf8 (fromPercentEncoding (toLatin1 Text)))
  else convert (fromUtf8 (fromPercentEncoding (toLatin1 Text))) eType

mutual
/-- The loop, with what it has so far. -/
def parse_loop (qt : Qt) (bLazy : Bool) : Nat → Bool → QType → QString → QString → QVariant → List Event → Parsed
  | 0, _, _, _, Name, Variant, xml => ⟨false, Name, Variant, xml⟩
  | fuel + 1, bOpen, eType, Text, Name, Variant, xml =>
    match xml with
    | [] => ⟨false, Name, Variant, []⟩
    | .error :: _ => ⟨false, Name, Variant, []⟩
    | .startElement name type :: rest =>
      match GetType type with
      | .Map =>
        let inner := parse_children qt bLazy fuel [] .invalid rest
        ⟨true, name, .map (filled inner.1), inner.2⟩
      | .Hash =>
        let inner := parse_children qt bLazy fuel [] .invalid rest
        ⟨true, name, .hash (filled inner.1), inner.2⟩
      | .List =>
        let inner := parse_children qt bLazy fuel [] .invalid rest
        ⟨true, name, .list (inner.1.map (·.2)), inner.2⟩
      | .StringList =>
        let inner := parse_children qt bLazy fuel [] .invalid rest
        ⟨true, name, .stringList (inner.1.map fun item => to_string item.2), inner.2⟩
      | other => parse_loop qt bLazy fuel true other Text name Variant rest
    | .characters text :: rest => parse_loop qt bLazy fuel bOpen eType (if bOpen then Text ++ text else Text) Name Variant rest
    | .endElement :: rest => if bOpen then ⟨true, Name, leaf_value qt bLazy eType Text, rest⟩ else ⟨false, Name, Variant, rest⟩
    | .startDocument :: rest => parse_loop qt bLazy fuel bOpen eType Text Name Variant rest
    | .endDocument :: rest => parse_loop qt bLazy fuel bOpen eType Text Name Variant rest

/-- What the loop of a container gets, call after call, with the `Temp` and the `Item` that all calls share. -/
def parse_children (qt : Qt) (bLazy : Bool) : Nat → QString → QVariant → List Event → List (QString × QVariant) × List Event
  | 0, _, _, xml => ([], xml)
  | fuel + 1, Temp, Item, xml =>
    let child := parse_loop qt bLazy fuel false .Invalid [] Temp Item xml
    if child.found then
      let more := parse_children qt bLazy fuel child.Name child.Variant child.xml
      ((child.Name, child.Variant) :: more.1, more.2)
    else ([], child.xml)
end

/-- The loops take an event each time, of which there are no more than tokens. -/
def Parse (qt : Qt) (bLazy : Bool) (tokens : List Token) : QVariant :=
  (parse_loop qt bLazy (tokens.length + 1) false .Invalid [] [] .invalid (read qt tokens)).Variant

/-! ## Texts and back -/

section Texts

theorem ascii_number {c : UInt8} (low : c.toNat < 0x80) : (Char.ofNat c.toNat).toNat = c.toNat := toNat_ofNat (.inl (by omega))

theorem toLatin1_ascii {bytes : Bytes} (low : ∀ c ∈ bytes, c.toNat < 0x80) : toLatin1 (ascii bytes) = bytes := by
  rw [toLatin1, ascii, List.map_map]
  refine (List.map_congr_left fun c member => ?_).trans (List.map_id bytes)
  have here := ascii_number (low c member)
  have byte := c.toNat_lt
  simp only [Function.comp_apply, here, if_pos byte, id]
  simp

theorem ascii_head {bytes : Bytes} (low : ∀ c ∈ bytes, c.toNat < 0x80) : (ascii bytes).head? ≠ some bom := by
  cases bytes with
  | nil => simp [ascii]
  | cons c rest =>
    intro first
    have e : Char.ofNat c.toNat = bom := by simpa [ascii] using first
    have here := ascii_number (low c (by simp))
    rw [e] at here
    have := low c (by simp)
    have mark : bom.toNat = 0xFEFF := by decide
    omega

theorem decimal_low (n : Int) : ∀ c ∈ decimal n, c.toNat < 0x80 := by
  have digits (m : Nat) : ∀ c ∈ text 10 m, c.toNat < 0x80 := fun c member => by
    rw [text_eq_padded] at member
    rcases (padded_chars (.inl rfl) 0 m).2 c member with ⟨-, high⟩ | ⟨-, high⟩ <;>
    · have := UInt8.le_iff_toNat_le.mp high
      simp at this
      omega
  intro c member
  rw [decimal] at member
  split_ifs at member
  · rcases List.mem_cons.mp member with rfl | inside
    · decide
    · exact digits _ c inside
  · exact digits _ c member

theorem quoted_byte : ∀ k : Fin 256, hex_value (hex_digit (k.val.toUInt8 / 16)) * 16 + hex_value (hex_digit (k.val.toUInt8 % 16)) = k.val.toUInt8 ∧
    (is_left k.val.toUInt8 = true → k.val.toUInt8 ≠ 37 ∧ k.val < 0x80) ∧ (hex_digit (k.val.toUInt8 / 16)).toNat < 0x80 ∧
    (hex_digit (k.val.toUInt8 % 16)).toNat < 0x80 := by
  decide +kernel

theorem quoted (c : UInt8) : hex_value (hex_digit (c / 16)) * 16 + hex_value (hex_digit (c % 16)) = c ∧ (is_left c = true → c ≠ 37 ∧ c.toNat < 0x80) ∧
    (hex_digit (c / 16)).toNat < 0x80 ∧ (hex_digit (c % 16)).toNat < 0x80 := by
  have facts := quoted_byte ⟨c.toNat, c.toNat_lt⟩
  rwa [show (c.toNat).toUInt8 = c from UInt8.ofNat_toNat] at facts

theorem fromPercent_cons {c : UInt8} (other : c ≠ 37) (bytes : Bytes) : fromPercentEncoding (c :: bytes) = c :: fromPercentEncoding bytes := by
  cases bytes with
  | nil => rfl
  | cons a rest =>
    cases rest with
    | nil => rfl
    | cons b rest => rw [fromPercentEncoding, if_neg other]

theorem percent_back (bytes : Bytes) : fromPercentEncoding (toPercentEncoding bytes) = bytes := by
  induction bytes with
  | nil => rfl
  | cons c rest ih =>
    have facts := quoted c
    have whole : toPercentEncoding (c :: rest) =
        (if is_left c then [c] else [37, hex_digit (c / 16), hex_digit (c % 16)]) ++ toPercentEncoding rest := rfl
    rw [whole]
    split_ifs with left
    · rw [List.singleton_append, fromPercent_cons (facts.2.1 left).1, ih]
    · show fromPercentEncoding (37 :: _ :: _ :: _) = _
      rw [fromPercentEncoding, if_pos rfl, facts.1]
      exact congrArg _ ih

theorem percent_low (bytes : Bytes) : ∀ c ∈ toPercentEncoding bytes, c.toNat < 0x80 := by
  intro d member
  obtain ⟨c, -, inside⟩ := List.mem_flatMap.mp member
  have facts := quoted c
  split_ifs at inside with left
  · rw [List.mem_singleton.mp inside]
    exact (facts.2.1 left).2
  · rcases List.mem_cons.mp inside with rfl | inside
    · decide
    rcases List.mem_cons.mp inside with rfl | inside
    · exact facts.2.2.1
    · rw [List.mem_singleton.mp inside]
      exact facts.2.2.2

/-- What is read where a text was written. -/
def unmarked (text : QString) : QString := if text.head? = some bom then text.tail else text

theorem text_back (text : QString) : fromUtf8 (fromPercentEncoding (toLatin1 (ascii (toPercentEncoding (toUtf8 text))))) = unmarked text := by
  rw [toLatin1_ascii (percent_low _), percent_back, fromUtf8_toUtf8]
  rfl

theorem unmarked_ascii {bytes : Bytes} (low : ∀ c ∈ bytes, c.toNat < 0x80) : unmarked (ascii bytes) = ascii bytes := if_neg (ascii_head low)

theorem unmarked_eq (text : QString) : unmarked text = text ↔ text.head? ≠ some bom := by
  unfold unmarked
  cases text with
  | nil => simp
  | cons c rest =>
    split_ifs with marked
    · refine ⟨fun e => ?_, fun no => absurd marked no⟩
      have := congrArg List.length e
      simp at this
    · exact ⟨fun _ => marked, fun _ => rfl⟩

end Texts

/-! ## Nodes -/

section Nodes
variable {qt : Qt} {holds : QVariant → Prop}

def QVariant.isContainer : QVariant → Bool
  | map _ | hash _ | list _ | stringList _ => true
  | _ => false

/-- What a container holds, each under the name of its element. -/
def QVariant.children : QVariant → List (QString × QVariant)
  | map entries | hash entries => entries
  | list items => items.map fun item => ("Variant".toList, item)
  | stringList items => items.map fun text => ("Variant".toList, .string text)
  | _ => []

theorem children_smaller {v : QVariant} {pair : QString × QVariant} (member : pair ∈ v.children) : sizeOf pair.2 < sizeOf v := by
  cases v with
  | map entries =>
    have smaller := List.sizeOf_lt_of_mem (show pair ∈ entries from member)
    cases pair
    simp only [QVariant.map.sizeOf_spec, Prod.mk.sizeOf_spec] at smaller ⊢
    omega
  | hash entries =>
    have smaller := List.sizeOf_lt_of_mem (show pair ∈ entries from member)
    cases pair
    simp only [QVariant.hash.sizeOf_spec, Prod.mk.sizeOf_spec] at smaller ⊢
    omega
  | list items =>
    obtain ⟨item, inside, rfl⟩ := List.mem_map.mp member
    have smaller := List.sizeOf_lt_of_mem inside
    simp only [QVariant.list.sizeOf_spec]
    omega
  | stringList items =>
    obtain ⟨text, inside, rfl⟩ := List.mem_map.mp member
    have smaller := List.sizeOf_lt_of_mem inside
    simp only [QVariant.stringList.sizeOf_spec, QVariant.string.sizeOf_spec]
    omega
  | _ => exact absurd member (by simp [QVariant.children])

theorem induct (node : ∀ v, (∀ pair ∈ v.children, holds pair.2) → holds v) (v : QVariant) : holds v :=
  node v fun pair member =>
    have := children_smaller member
    induct node pair.2
termination_by v

/-- Something holds at every node. -/
inductive Every (holds : QVariant → Prop) : QVariant → Prop where
  | node {v : QVariant} : holds v → (∀ pair ∈ v.children, Every holds pair.2) → Every holds v

theorem Every.here {v : QVariant} (every : Every holds v) : holds v := by
  cases every with
  | node here _ => exact here

theorem Every.child {v : QVariant} (every : Every holds v) {pair : QString × QVariant} (member : pair ∈ v.children) : Every holds pair.2 := by
  cases every with
  | node _ below => exact below pair member

theorem Every.of_leaf {v : QVariant} (leaf : v.children = []) (here : holds v) : Every holds v :=
  .node here fun pair member => by simp [leaf] at member

/-- What the loop of a container makes of what it gets. -/
def build (type : QType) (inner : List (QString × QVariant)) : QVariant :=
  match type with
  | .Map => .map (filled inner)
  | .Hash => .hash (filled inner)
  | .List => .list (inner.map (·.2))
  | _ => .stringList (inner.map fun item => to_string item.2)

mutual
/-- The tree with other texts and something else for what is invalid, its maps and hashes by their keys. -/
def rebuilt (text : QString → QString) (nothing : QVariant) : QVariant → QVariant
  | .map entries => .map (filled (rebuilt_entries text nothing entries))
  | .hash entries => .hash (filled (rebuilt_entries text nothing entries))
  | .list items => .list (rebuilt_items text nothing items)
  | .stringList items => .stringList (items.map text)
  | .string s => .string (text s)
  | .invalid => nothing
  | leaf => leaf

def rebuilt_entries (text : QString → QString) (nothing : QVariant) : List (QString × QVariant) → List (QString × QVariant)
  | [] => []
  | (key, value) :: rest => (key, rebuilt text nothing value) :: rebuilt_entries text nothing rest

def rebuilt_items (text : QString → QString) (nothing : QVariant) : List QVariant → List QVariant
  | [] => []
  | item :: rest => rebuilt text nothing item :: rebuilt_items text nothing rest
end

/-- The value of a variant, whatever the order its maps and hashes are walked in. -/
def value (v : QVariant) : QVariant := rebuilt id .invalid v

/-- What is read where a variant was written. -/
def shown (v : QVariant) : QVariant := rebuilt unmarked (.string []) v

theorem rebuilt_entries_eq (text : QString → QString) (nothing : QVariant) (entries : List (QString × QVariant)) :
    rebuilt_entries text nothing entries = entries.map fun pair => (pair.1, rebuilt text nothing pair.2) := by
  induction entries with
  | nil => rw [rebuilt_entries]; rfl
  | cons pair rest ih => rw [rebuilt_entries, ih]; rfl

theorem rebuilt_items_eq (text : QString → QString) (nothing : QVariant) (items : List QVariant) :
    rebuilt_items text nothing items = items.map (rebuilt text nothing) := by
  induction items with
  | nil => rw [rebuilt_items]; rfl
  | cons item rest ih => rw [rebuilt_items, ih]; rfl

theorem rebuilt_container (text : QString → QString) (nothing : QVariant) {v : QVariant} (container : v.isContainer = true) :
    rebuilt text nothing v = build v.type (v.children.map fun pair => (pair.1, rebuilt text nothing pair.2)) := by
  cases v with
  | map entries => rw [rebuilt, rebuilt_entries_eq]; rfl
  | hash entries => rw [rebuilt, rebuilt_entries_eq]; rfl
  | list items =>
    rw [rebuilt, rebuilt_items_eq]
    simp only [build, QVariant.type, QVariant.children, List.map_map]
    rfl
  | stringList items =>
    rw [rebuilt]
    simp only [build, QVariant.type, QVariant.children, List.map_map]
    refine congrArg _ (List.map_congr_left fun s _ => ?_)
    simp only [Function.comp_apply, rebuilt, to_string]
  | _ => simp [QVariant.isContainer] at container

theorem serialize_entries_eq (bLazy : Bool) (entries : List (QString × QVariant)) :
    serialize_entries qt bLazy entries = entries.flatMap fun pair => Serialize qt bLazy pair.1 pair.2 := by
  induction entries with
  | nil => rw [serialize_entries]; rfl
  | cons pair rest ih => rw [serialize_entries, ih]; rfl

theorem serialize_items_eq (bLazy : Bool) (items : List QVariant) :
    serialize_items qt bLazy items = items.flatMap fun item => Serialize qt bLazy "Variant".toList item := by
  induction items with
  | nil => rw [serialize_items]; rfl
  | cons item rest ih => rw [serialize_items, ih]; rfl

theorem serialize_container (bLazy : Bool) (Name : QString) {v : QVariant} (container : v.isContainer = true) :
    Serialize qt bLazy Name v =
      .startElement Name (GetTypeStr v.type) :: (v.children.flatMap fun pair => Serialize qt bLazy pair.1 pair.2) ++ [.endElement] := by
  cases v with
  | map entries => rw [Serialize, serialize_entries_eq]; rfl
  | hash entries => rw [Serialize, serialize_entries_eq]; rfl
  | list items => rw [Serialize, serialize_items_eq, QVariant.children, List.flatMap_map]; rfl
  | stringList items =>
    rw [Serialize, QVariant.children, List.flatMap_map]
    rfl
  | _ => simp [QVariant.isContainer] at container

theorem serialize_leaf (bLazy : Bool) (Name : QString) {v : QVariant} (leaf : v.isContainer = false) (some_type : v ≠ .invalid) :
    Serialize qt bLazy Name v = [.startElement Name (GetTypeStr v.type), .characters (leaf_text qt bLazy v), .endElement] := by
  cases v with
  | invalid => exact absurd rfl some_type
  | map entries => simp [QVariant.isContainer] at leaf
  | hash entries => simp [QVariant.isContainer] at leaf
  | list items => simp [QVariant.isContainer] at leaf
  | stringList items => simp [QVariant.isContainer] at leaf
  | _ => rw [Serialize] <;> simp

theorem type_back (type : QType) : GetType (GetTypeStr type) = type := by
  cases type <;> decide

end Nodes

/-! ## What is read of a tree -/

section Reading
variable {qt : Qt}

/-- A valid name without a prefix. -/
def Plain (qt : Qt) (name : QString) : Prop := qt.valid name = true ∧ ':' ∉ name

theorem plain_variant : Plain qt "Variant".toList := ⟨qt.variant_valid, by decide⟩

variable {name : QString}

theorem local_plain (plain : Plain qt name) : local_name qt name = some name := by
  rw [local_name, if_pos plain.1, if_neg plain.2]

/-- The elements in a map or a hash have plain names. -/
def PlainKeys (qt : Qt) (v : QVariant) : Prop := ∀ pair ∈ v.children, Plain qt pair.1

theorem read_append (qt : Qt) {type : QString} (plain : Plain qt name) (rest : List Token) :
    read qt (.startElement name type :: rest) = .startElement name type :: read qt rest := by
  rw [read, local_plain plain]

/-- With so many rounds a call reads these tokens as this variant under this name, whatever it was given and whatever follows. -/
structure Reads (qt : Qt) (name : QString) (v : QVariant) (tokens : List Token) : Prop where
  some_token : tokens ≠ []
  reads : ∀ fuel Name Variant more, tokens.length < fuel →
    parse_loop qt false fuel false .Invalid [] Name Variant (read qt (tokens ++ more)) = ⟨true, name, shown v, read qt more⟩

variable {v : QVariant}

theorem Reads.indented {tokens : List Token} (h : Reads qt name v tokens) (depth : Nat) :
    Reads qt name v (indent depth :: tokens) := by
  refine ⟨by simp, fun fuel Name Variant more enough => ?_⟩
  obtain ⟨fuel, rfl⟩ : ∃ n, fuel = n + 1 := ⟨fuel - 1, by rw [List.length_cons] at enough; omega⟩
  rw [List.cons_append, indent, read, if_neg (by simp), parse_loop]
  exact h.reads fuel Name Variant more (by rw [List.length_cons] at enough; omega)

theorem children_read {pairs : List (QString × QVariant)} {pieces : List (List Token)}
    (h : List.Forall₂ (fun pair tokens => Reads qt pair.1 pair.2 tokens) pairs pieces) (gap : List Token) (is_gap : gap = [] ∨ ∃ depth, gap = [indent depth])
    (fuel : Nat) (Temp : QString) (Item : QVariant) (more : List Token) (enough : (pieces.flatten ++ gap ++ [Token.endElement]).length < fuel) :
    parse_children qt false fuel Temp Item (read qt (pieces.flatten ++ gap ++ .endElement :: more)) =
      (pairs.map fun pair => (pair.1, shown pair.2), read qt more) := by
  induction h generalizing fuel Temp Item with
  | nil =>
    rcases is_gap with rfl | ⟨depth, rfl⟩
    · obtain ⟨fuel, rfl⟩ : ∃ n, fuel = n + 2 := ⟨fuel - 2, by simp at enough; omega⟩
      simp [read, parse_children, parse_loop]
    · obtain ⟨fuel, rfl⟩ : ∃ n, fuel = n + 3 := ⟨fuel - 3, by simp at enough; omega⟩
      simp [read, parse_children, parse_loop, indent]
  | cons first rest ih =>
    rename_i pair tokens pairs pieces
    have some_token := List.length_pos_of_ne_nil first.some_token
    simp only [List.flatten_cons, List.length_append, List.length_singleton] at enough
    obtain ⟨fuel, rfl⟩ : ∃ n, fuel = n + 1 := ⟨fuel - 1, by omega⟩
    have text : (tokens :: pieces).flatten ++ gap ++ .endElement :: more = tokens ++ (pieces.flatten ++ gap ++ .endElement :: more) := by
      simp only [List.flatten_cons, List.append_assoc]
    rw [text, parse_children, first.reads fuel Temp Item _ (by omega)]
    simp only [if_true]
    rw [ih fuel _ _ (by simp only [List.length_append, List.length_singleton]; omega)]
    rfl

theorem container_read (plain : Plain qt name) (container : v.isContainer = true) {pieces : List (List Token)}
    (h : List.Forall₂ (fun pair tokens => Reads qt pair.1 pair.2 tokens) v.children pieces) (gap : List Token)
    (is_gap : gap = [] ∨ ∃ depth, gap = [indent depth]) :
    Reads qt name v (.startElement name (GetTypeStr v.type) :: pieces.flatten ++ gap ++ [.endElement]) := by
  refine ⟨by simp, fun fuel Name Variant more enough => ?_⟩
  simp only [List.cons_append, List.length_cons] at enough
  obtain ⟨fuel, rfl⟩ : ∃ n, fuel = n + 1 := ⟨fuel - 1, by omega⟩
  have inner := children_read h gap is_gap fuel [] .invalid more (by omega)
  have text : (.startElement name (GetTypeStr v.type) :: pieces.flatten ++ gap ++ [.endElement]) ++ more =
      .startElement name (GetTypeStr v.type) :: (pieces.flatten ++ gap ++ .endElement :: more) := by simp
  rw [text, read_append qt plain, parse_loop, type_back]
  have whole : shown v = build v.type (v.children.map fun pair => (pair.1, shown pair.2)) := rebuilt_container _ _ container
  rw [whole]
  cases v with
  | map entries => simp only [QVariant.type, inner, build]
  | hash entries => simp only [QVariant.type, inner, build]
  | list items => simp only [QVariant.type, inner, build]
  | stringList items => simp only [QVariant.type, inner, build]
  | _ => simp [QVariant.isContainer] at container

theorem leaf_converted (type : QType) (other : type ≠ .ByteArray) (some_type : type ≠ .Invalid) (text : QString) :
    leaf_value qt false type (ascii (toPercentEncoding (toUtf8 text))) = convert (unmarked text) type := by
  rw [leaf_value, if_neg fun both => other both.1, if_neg some_type, text_back]

theorem unmarked_decimal (n : Int) : unmarked (ascii (decimal n)) = ascii (decimal n) := unmarked_ascii (decimal_low n)

theorem toLatin1_decimal (n : Int) : toLatin1 (ascii (decimal n)) = decimal n := toLatin1_ascii (decimal_low n)

theorem leaf_back {v : QVariant} (leaf : v.isContainer = false) (some_type : v ≠ .invalid) :
    leaf_value qt false v.type (leaf_text qt false v) = shown v := by
  cases v with
  | invalid => exact absurd rfl some_type
  | bool value =>
    refine (leaf_converted .Bool (by decide) (by decide) _).trans ?_
    rw [shown, rebuilt] <;> cases value <;> simp [to_string, unmarked, convert, bom]
  | int value =>
    refine (leaf_converted .Int (by decide) (by decide) _).trans ?_
    have low := Int32.le_toInt value
    have high := Int32.toInt_lt value
    rw [to_string, unmarked_decimal, convert, toLatin1_decimal, to_signed_decimal (by omega) (by omega)]
    simp only [if_pos (And.intro low high), Int32.ofInt_toInt]
    simp [shown, rebuilt]
  | uint value =>
    refine (leaf_converted .UInt (by decide) (by decide) _).trans ?_
    have high := value.toNat_lt
    rw [to_string, unmarked_decimal, convert, toLatin1_decimal, to_unsigned_decimal _ (by omega), if_pos (by omega)]
    simp [shown, rebuilt]
  | longLong value =>
    refine (leaf_converted .LongLong (by decide) (by decide) _).trans ?_
    rw [to_string, unmarked_decimal, convert, toLatin1_decimal, to_signed_decimal (Int64.le_toInt value) (Int64.toInt_lt value)]
    simp [shown, rebuilt]
  | uLongLong value =>
    refine (leaf_converted .ULongLong (by decide) (by decide) _).trans ?_
    have high := value.toNat_lt
    rw [to_string, unmarked_decimal, convert, toLatin1_decimal, to_unsigned_decimal _ (by omega), if_pos (by omega)]
    simp [shown, rebuilt]
  | string text =>
    refine (leaf_converted .String (by decide) (by decide) _).trans ?_
    simp [to_string, convert, shown, rebuilt]
  | byteArray bytes =>
    have back : leaf_value qt false .ByteArray (ascii (qt.toBase64 bytes)) = .byteArray bytes := by
      rw [leaf_value, if_pos ⟨rfl, rfl⟩, toLatin1_ascii (qt.base64_ascii bytes), qt.base64_back]
    refine back.trans ?_
    simp [shown, rebuilt]
  | map entries => simp [QVariant.isContainer] at leaf
  | hash entries => simp [QVariant.isContainer] at leaf
  | list items => simp [QVariant.isContainer] at leaf
  | stringList items => simp [QVariant.isContainer] at leaf

theorem start_leaf (fuel : Nat) {name : QString} {v : QVariant} (leaf : v.isContainer = false) (Name : QString) (Variant : QVariant) (rest : List Event) :
    parse_loop qt false (fuel + 1) false .Invalid [] Name Variant (.startElement name (GetTypeStr v.type) :: rest) =
      parse_loop qt false fuel true v.type [] name Variant rest := by
  rw [parse_loop, type_back]
  cases v with
  | map entries => simp [QVariant.isContainer] at leaf
  | hash entries => simp [QVariant.isContainer] at leaf
  | list items => simp [QVariant.isContainer] at leaf
  | stringList items => simp [QVariant.isContainer] at leaf
  | _ => rfl

theorem leaf_read (plain : Plain qt name) (leaf : v.isContainer = false) (some_type : v ≠ .invalid) :
    Reads qt name v [.startElement name (GetTypeStr v.type), .characters (leaf_text qt false v), .endElement] := by
  refine ⟨by simp, fun fuel Name Variant more enough => ?_⟩
  obtain ⟨fuel, rfl⟩ : ∃ n, fuel = n + 3 := ⟨fuel - 3, by simp at enough; omega⟩
  have back := @leaf_back qt v leaf some_type
  simp only [List.cons_append, List.nil_append]
  rw [read_append qt plain, start_leaf _ leaf, read]
  by_cases empty : leaf_text qt false v = []
  · rw [if_pos empty, read, parse_loop, if_pos rfl]
    rw [empty] at back
    rw [back]
  · rw [if_neg empty, read, parse_loop, parse_loop, if_pos rfl]
    simp only [if_true, List.nil_append, back]

theorem invalid_read (plain : Plain qt name) :
    Reads qt name .invalid [.startElement name (GetTypeStr .Invalid), .endElement] := by
  refine ⟨by simp, fun fuel Name Variant more enough => ?_⟩
  obtain ⟨fuel, rfl⟩ : ∃ n, fuel = n + 2 := ⟨fuel - 2, by simp at enough; omega⟩
  simp only [List.cons_append, List.nil_append]
  have here := @start_leaf qt (fuel + 1) name .invalid rfl Name Variant (read qt (.endElement :: more))
  rw [read_append qt plain]
  refine here.trans ?_
  rw [read, parse_loop, if_pos rfl]
  rfl

theorem serialize_read (keys : Every (PlainKeys qt) v) (plain : Plain qt name) :
    Reads qt name v (Serialize qt false name v) := by
  induction v using induct generalizing name with
  | node v ih =>
    by_cases container : v.isContainer = true
    · have pieces : List.Forall₂ (fun pair tokens => Reads qt pair.1 pair.2 tokens) v.children
          (v.children.map fun pair => Serialize qt false pair.1 pair.2) :=
        List.forall₂_map_right_iff.mpr (List.forall₂_same.mpr fun pair member => ih pair member (keys.child member) (keys.here pair member))
      have h := container_read plain container pieces [] (.inl rfl)
      rw [List.append_nil] at h
      rw [serialize_container false name container, List.flatMap_def]
      exact h
    · by_cases some_type : v = .invalid
      · subst some_type
        have form : Serialize qt false name .invalid = [.startElement name (GetTypeStr .Invalid), .endElement] := by rw [Serialize]
        rw [form]
        exact invalid_read plain
      · rw [serialize_leaf false name (by simpa using container) some_type]
        exact leaf_read plain (by simpa using container) some_type

theorem formatted_pieces {depth : Nat} (pairs : List (QString × QVariant))
    (each : ∀ pair ∈ pairs, ∀ last rest, ∃ tokens, auto_format false last depth (Serialize qt false pair.1 pair.2 ++ rest) =
      tokens ++ auto_format false false depth rest ∧ Reads qt pair.1 pair.2 tokens) (last : Bool) (rest : List Token) :
    ∃ pieces : List (List Token), auto_format false last depth ((pairs.flatMap fun pair => Serialize qt false pair.1 pair.2) ++ rest) =
        pieces.flatten ++ auto_format false (if pairs = [] then last else false) depth rest ∧
      List.Forall₂ (fun pair tokens => Reads qt pair.1 pair.2 tokens) pairs pieces := by
  induction pairs generalizing last with
  | nil => exact ⟨[], rfl, .nil⟩
  | cons pair pairs ih =>
    obtain ⟨tokens, first, reads⟩ := each pair (by simp) last ((pairs.flatMap fun pair => Serialize qt false pair.1 pair.2) ++ rest)
    obtain ⟨pieces, later, all⟩ := ih (fun other member => each other (by simp [member])) false
    refine ⟨tokens :: pieces, ?_, .cons reads all⟩
    rw [List.flatMap_cons, List.append_assoc, first, later, List.flatten_cons, List.append_assoc, ite_self, if_neg (List.cons_ne_nil _ _)]

theorem formatted_read (keys : Every (PlainKeys qt) v) (plain : Plain qt name) (last : Bool) (depth : Nat)
    (rest : List Token) :
    ∃ tokens, auto_format false last depth (Serialize qt false name v ++ rest) = tokens ++ auto_format false false depth rest ∧
      Reads qt name v tokens := by
  induction v using induct generalizing name last depth rest with
  | node v ih =>
    by_cases container : v.isContainer = true
    · obtain ⟨pieces, form, all⟩ := @formatted_pieces qt (depth + 1) v.children
        (fun pair member last rest => ih pair member (keys.child member) (keys.here pair member) last (depth + 1) rest) true (.endElement :: rest)
      have start : auto_format false last depth (Serialize qt false name v ++ rest) = indent depth :: .startElement name (GetTypeStr v.type) ::
          auto_format false true (depth + 1) ((v.children.flatMap fun pair => Serialize qt false pair.1 pair.2) ++ .endElement :: rest) := by
        rw [serialize_container false name container]
        simp [auto_format]
      rw [start, form]
      by_cases empty : v.children = []
      · refine ⟨_, ?_, (container_read plain container all [] (.inl rfl)).indented depth⟩
        simp [empty, auto_format]
      · refine ⟨_, ?_, (container_read plain container all [indent depth] (.inr ⟨depth, rfl⟩)).indented depth⟩
        simp [empty, auto_format]
    · by_cases some_type : v = .invalid
      · subst some_type
        refine ⟨_, ?_, (invalid_read plain).indented depth⟩
        simp [Serialize, auto_format]
      · refine ⟨_, ?_, (leaf_read plain (by simpa using container) some_type).indented depth⟩
        rw [serialize_leaf false name (by simpa using container) some_type]
        simp [auto_format]

theorem parse_document (keys : Every (PlainKeys qt) v) (formatting : Bool) :
    Parse qt false (document qt false formatting v) = shown v := by
  obtain ⟨tokens, is_document, reads⟩ : ∃ tokens, document qt false formatting v = .startDocument :: tokens ++ [.endDocument] ∧
      Reads qt "Variant".toList v tokens := by
    cases formatting with
    | false => exact ⟨_, rfl, serialize_read keys plain_variant⟩
    | true =>
      obtain ⟨tokens, form, reads⟩ := formatted_read keys plain_variant false 0 [.endDocument]
      refine ⟨tokens, ?_, reads⟩
      exact congrArg (Token.startDocument :: ·) form
  have enough : tokens.length < (document qt false formatting v).length := by
    rw [is_document, List.length_append, List.length_cons]
    omega
  have start : read qt (document qt false formatting v) = .startDocument :: read qt (tokens ++ [.endDocument]) := by
    rw [is_document, List.cons_append, read]
  rw [Parse, start, parse_loop, reads.reads _ [] .invalid [.endDocument] enough]

end Reading

/-! ## Names that cannot be read -/

section Names
variable {qt : Qt}

/-- What a reader gives has no other names. -/
def AllPlain (qt : Qt) (xml : List Event) : Prop := ∀ name type, Event.startElement name type ∈ xml → Plain qt name

theorem local_name_plain {name found : QString} (h : local_name qt name = some found) : Plain qt found := by
  rw [local_name] at h
  split_ifs at h with valid prefixed rest
  · rw [← Option.some.inj h]
    exact ⟨rest.2.2, rest.2.1⟩
  · rw [← Option.some.inj h]
    exact ⟨valid, prefixed⟩

theorem read_plain (tokens : List Token) : AllPlain qt (read qt tokens) := by
  induction tokens with
  | nil => simp [AllPlain, read]
  | cons token rest ih =>
    intro name type member
    cases token with
    | startElement written kind =>
      rw [read] at member
      cases is_local : local_name qt written with
      | none => simp [is_local] at member
      | some found =>
        rw [is_local] at member
        rcases List.mem_cons.mp member with same | later
        · rw [(Event.startElement.inj same).1]
          exact local_name_plain is_local
        · exact ih name type later
    | characters text =>
      rw [read] at member
      split_ifs at member
      · exact ih name type member
      · exact ih name type (by simpa using member)
    | startDocument => exact ih name type (by simpa [read] using member)
    | endElement => exact ih name type (by simpa [read] using member)
    | endDocument => exact ih name type (by simpa [read] using member)

theorem AllPlain.tail {event : Event} {rest : List Event} (plain : AllPlain qt (event :: rest)) : AllPlain qt rest :=
  fun name type member => plain name type (List.mem_cons_of_mem event member)

theorem leaf_keys {v : QVariant} (leaf : v.children = []) : Every (PlainKeys qt) v :=
  .of_leaf leaf fun pair member => by simp [leaf] at member

theorem leaf_value_keys (eType : QType) (text : QString) : Every (PlainKeys qt) (leaf_value qt false eType text) := by
  refine leaf_keys ?_
  rw [leaf_value]
  split_ifs
  · rfl
  · rfl
  · cases eType <;> rfl

theorem build_keys (type : QType) {inner : List (QString × QVariant)} (h : ∀ pair ∈ inner, Plain qt pair.1 ∧ Every (PlainKeys qt) pair.2) :
    Every (PlainKeys qt) (build type inner) := by
  have filled_keys (pair : QString × QVariant) (member : pair ∈ filled inner) : Plain qt pair.1 ∧ Every (PlainKeys qt) pair.2 :=
    h pair (mem_of_filled member)
  have texts (items : List QString) : Every (PlainKeys qt) (.stringList items) := by
    refine .node (fun pair member => ?_) fun pair member => ?_
    · obtain ⟨text, -, rfl⟩ := List.mem_map.mp member
      exact plain_variant
    · obtain ⟨text, -, rfl⟩ := List.mem_map.mp member
      exact leaf_keys rfl
  unfold build
  split
  · exact .node (fun pair member => (filled_keys pair member).1) fun pair member => (filled_keys pair member).2
  · exact .node (fun pair member => (filled_keys pair member).1) fun pair member => (filled_keys pair member).2
  · refine .node (fun pair member => ?_) fun pair member => ?_
    · obtain ⟨item, -, rfl⟩ := List.mem_map.mp member
      exact plain_variant
    · obtain ⟨item, inside, rfl⟩ := List.mem_map.mp member
      obtain ⟨source, from_inner, rfl⟩ := List.mem_map.mp inside
      exact (h source from_inner).2
  · exact texts _

/-- No call puts another name into a tree. -/
theorem parse_keys (fuel : Nat) :
    (∀ bOpen eType Text Name Variant xml, AllPlain qt xml → (bOpen = true → Plain qt Name) → Every (PlainKeys qt) Variant →
      let parsed := parse_loop qt false fuel bOpen eType Text Name Variant xml
      (parsed.found = true → Plain qt parsed.Name) ∧ Every (PlainKeys qt) parsed.Variant ∧ AllPlain qt parsed.xml) ∧
    ∀ Temp Item xml, AllPlain qt xml → Every (PlainKeys qt) Item →
      let inner := parse_children qt false fuel Temp Item xml
      (∀ pair ∈ inner.1, Plain qt pair.1 ∧ Every (PlainKeys qt) pair.2) ∧ AllPlain qt inner.2 := by
  induction fuel with
  | zero =>
    constructor
    · intro bOpen eType Text Name Variant xml plain _ keys
      rw [parse_loop]
      exact ⟨by simp, keys, plain⟩
    · intro Temp Item xml plain keys
      rw [parse_children]
      exact ⟨by simp, plain⟩
  | succ fuel ih =>
    constructor
    · intro bOpen eType Text Name Variant xml plain named keys
      cases xml with
      | nil =>
        rw [parse_loop]
        exact ⟨by simp, keys, plain⟩
      | cons event rest =>
        cases event with
        | error =>
          rw [parse_loop]
          exact ⟨by simp, keys, by simp [AllPlain]⟩
        | startElement name type =>
          have here : Plain qt name := plain name type (by simp)
          obtain ⟨inner, after⟩ := ih.2 [] .invalid rest plain.tail (leaf_keys rfl)
          rw [parse_loop]
          split
          · exact ⟨fun _ => here, build_keys .Map inner, after⟩
          · exact ⟨fun _ => here, build_keys .Hash inner, after⟩
          · exact ⟨fun _ => here, build_keys .List inner, after⟩
          · exact ⟨fun _ => here, build_keys .StringList inner, after⟩
          · exact ih.1 _ _ _ _ _ rest plain.tail (fun _ => here) keys
        | characters text =>
          rw [parse_loop]
          exact ih.1 _ _ _ _ _ rest plain.tail named keys
        | endElement =>
          rw [parse_loop]
          cases bOpen with
          | true => exact ⟨fun _ => named rfl, leaf_value_keys eType Text, plain.tail⟩
          | false => exact ⟨by simp, keys, plain.tail⟩
        | startDocument =>
          rw [parse_loop]
          exact ih.1 _ _ _ _ _ rest plain.tail named keys
        | endDocument =>
          rw [parse_loop]
          exact ih.1 _ _ _ _ _ rest plain.tail named keys
    · intro Temp Item xml plain keys
      obtain ⟨name, inside, after⟩ := ih.1 false .Invalid [] Temp Item xml plain (by simp) keys
      rw [parse_children]
      cases found : (parse_loop qt false fuel false .Invalid [] Temp Item xml).found with
      | false =>
        simp only [Bool.false_eq_true, if_false]
        exact ⟨by simp, after⟩
      | true =>
        simp only [if_true]
        obtain ⟨more, last⟩ := ih.2 _ _ _ after inside
        refine ⟨fun pair member => ?_, last⟩
        rcases List.mem_cons.mp member with rfl | later
        · exact ⟨name found, inside⟩
        · exact more pair later

theorem parse_tree_keys (tokens : List Token) : Every (PlainKeys qt) (Parse qt false tokens) :=
  ((parse_keys (tokens.length + 1)).1 false .Invalid [] [] .invalid (read qt tokens) (read_plain tokens) (by simp) (leaf_keys rfl)).2.1

end Names

/-! ## Trees that come back -/

section Trees
variable {qt : Qt}

/-- A map or a hash has a key once. -/
def KeysUnique : QVariant → Prop
  | .map entries | .hash entries => (entries.map (·.1)).Nodup
  | _ => True

/-- Not invalid, and no text with a byte order mark in front. -/
def Kept : QVariant → Prop
  | .invalid => False
  | .string text => text.head? ≠ some bom
  | _ => True

theorem single_of_nodup {entries : List (QString × QVariant)} (unique : (entries.map (·.1)).Nodup) (f : QVariant → QVariant) :
    Single (entries.map fun pair => (pair.1, f pair.2)) := by
  intro left member right among same
  obtain ⟨pair, inside, rfl⟩ := List.mem_map.mp member
  obtain ⟨other, inside', rfl⟩ := List.mem_map.mp among
  rw [List.inj_on_of_nodup_map unique inside inside' same]

theorem rebuilt_child (text : QString → QString) (nothing : QVariant) {v : QVariant} (unique : KeysUnique v) {pair : QString × QVariant}
    (member : pair ∈ v.children) : (pair.1, rebuilt text nothing pair.2) ∈ (rebuilt text nothing v).children := by
  cases v with
  | map entries =>
    rw [rebuilt, rebuilt_entries_eq]
    exact (mem_filled (single_of_nodup unique _)).mpr (List.mem_map_of_mem member)
  | hash entries =>
    rw [rebuilt, rebuilt_entries_eq]
    exact (mem_filled (single_of_nodup unique _)).mpr (List.mem_map_of_mem member)
  | list items =>
    obtain ⟨item, inside, rfl⟩ := List.mem_map.mp member
    rw [rebuilt, rebuilt_items_eq]
    exact List.mem_map_of_mem (List.mem_map_of_mem inside)
  | stringList items =>
    obtain ⟨s, inside, rfl⟩ := List.mem_map.mp member
    rw [rebuilt, rebuilt]
    exact List.mem_map_of_mem (f := fun text => ("Variant".toList, QVariant.string text)) (List.mem_map_of_mem inside)
  | _ => simp [QVariant.children] at member

theorem rebuilt_same {text text' : QString → QString} {nothing nothing' v : QVariant} (unique : KeysUnique v)
    (same : rebuilt text nothing v = rebuilt text' nothing' v) {pair : QString × QVariant} (member : pair ∈ v.children) :
    rebuilt text nothing pair.2 = rebuilt text' nothing' pair.2 := by
  cases v with
  | map entries =>
    have left := rebuilt_child text nothing unique member
    have right := rebuilt_child text' nothing' unique member
    rw [same, rebuilt, rebuilt_entries_eq] at left
    rw [rebuilt, rebuilt_entries_eq] at right
    have single := single_of_nodup unique (rebuilt text' nothing')
    exact single _ ((mem_filled single).mp left) _ ((mem_filled single).mp right) rfl
  | hash entries =>
    have left := rebuilt_child text nothing unique member
    have right := rebuilt_child text' nothing' unique member
    rw [same, rebuilt, rebuilt_entries_eq] at left
    rw [rebuilt, rebuilt_entries_eq] at right
    have single := single_of_nodup unique (rebuilt text' nothing')
    exact single _ ((mem_filled single).mp left) _ ((mem_filled single).mp right) rfl
  | list items =>
    obtain ⟨item, inside, rfl⟩ := List.mem_map.mp member
    rw [rebuilt, rebuilt, rebuilt_items_eq, rebuilt_items_eq, QVariant.list.injEq] at same
    exact List.map_inj_left.mp same item inside
  | stringList items =>
    obtain ⟨s, inside, rfl⟩ := List.mem_map.mp member
    rw [rebuilt, rebuilt, QVariant.stringList.injEq] at same
    rw [rebuilt, rebuilt, List.map_inj_left.mp same s inside]
  | _ => simp [QVariant.children] at member

theorem shown_eq_iff {v : QVariant} (unique : Every KeysUnique v) : shown v = value v ↔ Every Kept v := by
  induction v using induct with
  | node v ih =>
    by_cases container : v.isContainer = true
    · have here : Kept v := by
        cases v with
        | invalid => simp [QVariant.isContainer] at container
        | string text => simp [QVariant.isContainer] at container
        | _ => trivial
      constructor
      · intro same
        exact .node here fun pair member => (ih pair member (unique.child member)).mp (rebuilt_same unique.here same member)
      · intro kept
        rw [shown, value, rebuilt_container _ _ container, rebuilt_container _ _ container]
        refine congrArg _ (List.map_congr_left fun pair member => ?_)
        exact congrArg _ ((ih pair member (unique.child member)).mpr (kept.child member))
    · have leaf : v.children = [] := by
        cases v with
        | map entries => simp [QVariant.isContainer] at container
        | hash entries => simp [QVariant.isContainer] at container
        | list items => simp [QVariant.isContainer] at container
        | stringList items => simp [QVariant.isContainer] at container
        | _ => rfl
      have here : shown v = value v ↔ Kept v := by
        cases v with
        | string text => simp [shown, value, rebuilt, Kept, unmarked_eq]
        | map entries => simp [QVariant.isContainer] at container
        | hash entries => simp [QVariant.isContainer] at container
        | list items => simp [QVariant.isContainer] at container
        | stringList items => simp [QVariant.isContainer] at container
        | _ => simp [shown, value, rebuilt, Kept]
      exact here.trans ⟨.of_leaf leaf, Every.here⟩

theorem value_keys {v : QVariant} (unique : Every KeysUnique v) (keys : Every (PlainKeys qt) (value v)) : Every (PlainKeys qt) v := by
  induction v using induct with
  | node v ih =>
    refine .node (fun pair member => ?_) fun pair member => ?_
    · have inside : (pair.1, value pair.2) ∈ (value v).children := rebuilt_child id .invalid unique.here member
      have plain := keys.here (pair.1, value pair.2) inside
      exact plain
    · have inside : (pair.1, value pair.2) ∈ (value v).children := rebuilt_child id .invalid unique.here member
      exact ih pair member (unique.child member) (keys.child inside)

theorem value_map {entries : List (QString × QVariant)} (sorted : Sorted entries) (inner : ∀ pair ∈ entries, value pair.2 = pair.2) :
    value (.map entries) = .map entries := by
  have same : (entries.map fun pair => (pair.1, rebuilt id .invalid pair.2)) = entries :=
    (List.map_congr_left fun pair member => congrArg (Prod.mk pair.1) (inner pair member)).trans (List.map_id entries)
  rw [value, rebuilt, rebuilt_entries_eq, same, filled_sorted sorted]

/-- A tree comes back exactly if its keys are names without a colon, nothing in it is invalid and no text has a byte order mark in front. -/
theorem tree_comes_back (qt : Qt) (formatting : Bool) (tree : {v : QVariant // Every KeysUnique v}) :
    Parse qt false (document qt false formatting tree.val) = value tree.val ↔ Every (PlainKeys qt) tree.val ∧ Every Kept tree.val := by
  obtain ⟨v, unique⟩ := tree
  constructor
  · intro same
    have keys : Every (PlainKeys qt) v := value_keys unique (same ▸ parse_tree_keys _)
    exact ⟨keys, (shown_eq_iff unique).mp ((parse_document keys formatting).symm.trans same)⟩
  · rintro ⟨keys, kept⟩
    exact (parse_document keys formatting).trans ((shown_eq_iff unique).mpr kept)

/-! A list with something invalid in it, which has no bytes to encode. -/

def pairs_to_bytes : Bytes → Bytes
  | a :: b :: rest => (hex_value a * 16 + hex_value b) :: pairs_to_bytes rest
  | _ => []

theorem pairs_back (bytes : Bytes) : pairs_to_bytes (bytes.flatMap fun c => [hex_digit (c / 16), hex_digit (c % 16)]) = bytes := by
  induction bytes with
  | nil => rfl
  | cons c rest ih =>
    have facts := quoted c
    rw [List.flatMap_cons]
    show (hex_value (hex_digit (c / 16)) * 16 + hex_value (hex_digit (c % 16))) :: pairs_to_bytes _ = _
    rw [facts.1]
    exact congrArg _ ih

/-- Every name is valid, and bytes are two digits each. -/
def digits_qt : Qt where
  valid _ := true
  variant_valid := rfl
  toBase64 bytes := bytes.flatMap fun c => [hex_digit (c / 16), hex_digit (c % 16)]
  fromBase64 := pairs_to_bytes
  base64_ascii bytes d member := by
    obtain ⟨c, -, inside⟩ := List.mem_flatMap.mp member
    have facts := quoted c
    rcases List.mem_cons.mp inside with rfl | inside
    · exact facts.2.2.1
    · rw [List.mem_singleton.mp inside]
      exact facts.2.2.2
  base64_back := pairs_back

/-- An invalid variant in a list comes back as an empty text. -/
theorem invalid_becomes_text :
    Parse digits_qt false (document digits_qt false false (.list [.invalid])) = .list [.string []] ∧
    ¬ ∀ (qt : Qt) (formatting : Bool) (tree : {v : QVariant // Every KeysUnique v}),
      Parse qt false (document qt false formatting tree.val) = value tree.val := by
  have keys (qt : Qt) : Every (PlainKeys qt) (.list [.invalid]) := by
    refine .node (fun pair member => ?_) fun pair member => ?_
    · obtain rfl : pair = ("Variant".toList, .invalid) := by simpa [QVariant.children] using member
      exact plain_variant
    · obtain rfl : pair = ("Variant".toList, .invalid) := by simpa [QVariant.children] using member
      exact leaf_keys rfl
  have unique : Every KeysUnique (.list [.invalid]) := by
    refine .node trivial fun pair member => ?_
    obtain rfl : pair = ("Variant".toList, .invalid) := by simpa [QVariant.children] using member
    exact .of_leaf rfl trivial
  have read : Parse digits_qt false (document digits_qt false false (.list [.invalid])) = .list [.string []] := by
    rw [parse_document (keys digits_qt)]
    simp [shown, rebuilt, rebuilt_items]
  refine ⟨read, fun all => ?_⟩
  have same := read.symm.trans (all digits_qt false ⟨_, unique⟩)
  simp [value, rebuilt, rebuilt_items] at same

end Trees

end TaskExplorer.Xml
