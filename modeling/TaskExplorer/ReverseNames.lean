import TaskExplorer.ByteText
import TaskExplorer.DnsCache

/-!
# Reverse names of addresses

The thread that looks up names puts the address into a name below `in-addr.arpa` or `ip6.arpa`,
and `RevDnsHost2Address` reads it back. It takes whatever labels there are, and leaves it to
`QHostAddress` to refuse them; that one reads numbers as C does.
-/

namespace TaskExplorer.ReverseNames
open DnsCache

/-! ## What `QHostAddress` reads -/

/-- A text of decimal digits. -/
def Numeral (label : Name) : Prop := label ≠ [] ∧ ∀ digit ∈ label, digit.isDigit = true

instance (label : Name) : Decidable (Numeral label) := decidable_of_iff (label ≠ [] ∧ label.all Char.isDigit = true) (by simp [Numeral])

def number (label : Name) : Nat := Nat.ofDigitChars 10 label 0

/-- In C a number that begins with a zero is an octal one. -/
def c_number (label : Name) : Option Nat :=
  if label.head? = some '0' then
    if label.all (fun digit => digit.toNat < '8'.toNat) then some (Nat.ofDigitChars 8 label 0) else none
  else some (number label)

/-- A hexadecimal digit, in either case. -/
def hex_digit (letter : Char) : Option Nat := "0123456789abcdef".toList.findIdx? (· == letter.toLower)

/-- A text of hexadecimal digits. -/
def HexNumeral (group : Name) : Prop := group ≠ [] ∧ ∀ letter ∈ group, (hex_digit letter).isSome = true

instance (group : Name) : Decidable (HexNumeral group) :=
  decidable_of_iff (group ≠ [] ∧ group.all (fun letter => (hex_digit letter).isSome) = true) (by simp [HexNumeral])

def hex_value (letters : Name) : Nat := letters.foldl (fun value letter => 16 * value + (hex_digit letter).getD 0) 0

/-- `QHostAddress` reads four numbers with dots between them, each of one byte, and eight groups of at most four hexadecimal digits with
colons between them. What has a colon in it is no IPv4 address, and no text is the address that stands for both protocols. -/
structure ReadsAddresses (parse : Name → HostAddress) : Prop where
  dotted : ∀ one two three four, Numeral one → Numeral two → Numeral three → Numeral four →
    parse (['.'].intercalate [one, two, three, four]) =
      match c_number one, c_number two, c_number three, c_number four with
      | some a, some b, some c, some d =>
        if a < 256 ∧ b < 256 ∧ c < 256 ∧ d < 256 then .ipv4 (UInt32.ofNat (((a * 256 + b) * 256 + c) * 256 + d)) else .null
      | _, _, _, _ => .null
  coloned : ∀ groups : List Name, groups.length = 8 → (∀ group ∈ groups, HexNumeral group) →
    parse ([':'].intercalate groups) =
      if ∀ group ∈ groups, group.length ≤ 4 then .ipv6 (BitVec.ofNat 128 (groups.foldl (fun value group => 65536 * value + hex_value group) 0))
      else .null
  colon : ∀ text value, parse text = .ipv4 value → ':' ∉ text
  known : ∀ text, parse text ≠ .any

/-! ## What is expected -/

/-- A label spells another one up to letter case and leading zeros. -/
def SameLabel (own label : Name) : Prop := ∃ zeros, label.map Char.toLower = List.replicate zeros '0' ++ own

def reverse_labels (address : HostAddress) : List Name := (reverse_name address).splitOn '.'

/-- The leading labels of a name spell the reverse name of an address. -/
def Spells (host : Name) (address : HostAddress) : Prop :=
  List.Forall₂ SameLabel (reverse_labels address) ((host.splitOn '.').take (reverse_labels address).length)

/-- The name has the form of the reverse name of an IPv6 address. -/
def IsIp6 (labels : List Name) : Prop := labels.length ≥ 32 + 2 ∧ labels[32]? = some "ip6".toList ∧ labels[33]? = some "arpa".toList

instance (labels : List Name) : Decidable (IsIp6 labels) := inferInstanceAs (Decidable (_ ∧ _))

/-- A decimal number that C reads as such. -/
def PlainNumber (label : Name) : Prop := Numeral label ∧ (label.head? = some '0' → number label < 8)

instance (label : Name) : Decidable (PlainNumber label) := inferInstanceAs (Decidable (_ ∧ _))

/-- A single hexadecimal digit. -/
def PlainDigit (label : Name) : Prop := HexNumeral label ∧ label.length = 1

instance (label : Name) : Decidable (PlainDigit label) := inferInstanceAs (Decidable (_ ∧ _))

/-- The labels that make up the address are plain. -/
def Plain (host : Name) : Prop :=
  if IsIp6 (host.splitOn '.') then ∀ label ∈ (host.splitOn '.').take 32, PlainDigit label
  else ∀ label ∈ (host.splitOn '.').take 4, PlainNumber label

/-! ## Labels -/

theorem splitOn_labels {labels : List Name} (plain : ∀ label ∈ labels, '.' ∉ label) (rest : Name) :
    ((labels.map (· ++ ['.'])).flatten ++ rest).splitOn '.' = labels ++ rest.splitOn '.' := by
  induction labels with
  | nil => rfl
  | cons label labels ih =>
    obtain ⟨here, there⟩ := List.forall_mem_cons.mp plain
    rw [List.map_cons, List.flatten_cons, List.append_assoc, List.append_assoc, List.singleton_append,
      List.splitOn_append_cons_self_of_not_mem here, ih there]
    rfl

variable {label : Name}

theorem dot_of_digit (numeral : ∀ digit ∈ label, digit.isDigit = true) : '.' ∉ label :=
  fun member => absurd (numeral '.' member) (by decide)

theorem decimal_numeral (number : Nat) : Numeral (decimal number) :=
  ⟨Nat.toDigits_ne_nil, fun _ member => Nat.isDigit_of_mem_toDigits (by decide) (by decide) member⟩

theorem reverse_labels_ipv4 (value : UInt32) : reverse_labels (.ipv4 value) =
    [decimal (value.toNat % 256), decimal (value.toNat / 256 % 256), decimal (value.toNat / 256 ^ 2 % 256), decimal (value.toNat / 256 ^ 3 % 256),
      "in-addr".toList, "arpa".toList] := by
  have plain : ∀ label ∈ (List.range 4).map (fun i => decimal (value.toNat / 256 ^ i % 256)), '.' ∉ label := by
    intro label member
    obtain ⟨i, -, rfl⟩ := List.mem_map.mp member
    exact dot_of_digit (decimal_numeral _).2
  have split := splitOn_labels plain "in-addr.arpa".toList
  rw [List.map_map] at split
  rw [reverse_labels, reverse_name]
  refine split.trans ?_
  simp [List.range_succ]
  rfl

/-- The half bytes of a number, least significant first. -/
def nibbles : Nat → Nat → List Nat
  | 0, _ => []
  | n + 1, value => value % 16 :: nibbles n (value / 16)

variable {digit : Nat} {letter : Char}

theorem hexadecimal_eq (small : digit < 16) : hexadecimal digit = [digit.digitChar] := Nat.toDigits_of_lt_base small

theorem nibbles_small {n value : Nat} (member : digit ∈ nibbles n value) : digit < 16 := by
  induction n generalizing value with
  | zero => cases member
  | succ n ih =>
    rcases List.mem_cons.mp member with rfl | later
    · exact Nat.mod_lt _ (by decide)
    · exact ih later

theorem length_nibbles (n value : Nat) : (nibbles n value).length = n := by
  induction n generalizing value with
  | zero => rfl
  | succ n ih => rw [nibbles, List.length_cons, ih]

theorem ofDigits_nibbles (n value : Nat) : Nat.ofDigits 16 (nibbles n value) = value % 16 ^ n := by
  induction n generalizing value with
  | zero => rw [nibbles, Nat.ofDigits_nil, Nat.pow_zero, Nat.mod_one]
  | succ n ih => rw [nibbles, Nat.ofDigits_cons, ih, Nat.pow_succ, Nat.mul_comm (16 ^ n), Nat.mod_mul]

theorem nibbles_ofDigits {digits : List Nat} (small : ∀ digit ∈ digits, digit < 16) : nibbles digits.length (Nat.ofDigits 16 digits) = digits := by
  induction digits with
  | nil => rfl
  | cons digit digits ih =>
    obtain ⟨here, there⟩ := List.forall_mem_cons.mp small
    have first : (digit + 16 * Nat.ofDigits 16 digits) % 16 = digit := by omega
    have rest : (digit + 16 * Nat.ofDigits 16 digits) / 16 = Nat.ofDigits 16 digits := by omega
    rw [List.length_cons, nibbles, Nat.ofDigits_cons, first, rest, ih there]

/-- The loop of `run` goes over the bytes from the last one on, and writes the lower half of each first. -/
theorem written_nibbles (n value : Nat) :
    ((List.range n).map (fun i =>
      hexadecimal (value / 256 ^ i % 16) ++ ['.'] ++ hexadecimal (value / 256 ^ i / 16 % 16) ++ ['.'])).flatten =
      (((nibbles (2 * n) value).map hexadecimal).map (· ++ ['.'])).flatten := by
  induction n generalizing value with
  | zero => rfl
  | succ n ih =>
    have step (i : Nat) : value / 256 ^ (i + 1) = value / 16 / 16 / 256 ^ i := by
      rw [Nat.pow_succ, Nat.mul_comm, ← Nat.div_div_eq_div_mul, Nat.div_div_eq_div_mul value 16 16]
    have rest := ih (value / 16 / 16)
    rw [List.range_succ_eq_map, List.map_cons, List.map_map, List.flatten_cons, Nat.mul_succ, nibbles, nibbles]
    simp only [Function.comp_def, Nat.succ_eq_add_one, step, Nat.pow_zero, Nat.div_one, List.map_cons, List.flatten_cons]
    rw [rest]
    simp only [List.append_assoc]

theorem dot_hexadecimal (small : digit < 16) : '.' ∉ hexadecimal digit := by
  have each : ∀ digit : Fin 16, '.' ≠ digit.val.digitChar := by decide
  rw [hexadecimal_eq small, List.mem_singleton]
  exact each ⟨digit, small⟩

theorem reverse_labels_ipv6 (value : BitVec 128) :
    reverse_labels (.ipv6 value) = (nibbles 32 value.toNat).map hexadecimal ++ ["ip6".toList, "arpa".toList] := by
  have plain : ∀ label ∈ (nibbles 32 value.toNat).map hexadecimal, '.' ∉ label := by
    intro label member
    obtain ⟨digit, isDigit, rfl⟩ := List.mem_map.mp member
    exact dot_hexadecimal (nibbles_small isDigit)
  have split := splitOn_labels plain "ip6.arpa".toList
  rw [reverse_labels, reverse_name, written_nibbles]
  exact split

/-! ## Place markers -/

theorem marker_other (other : letter ≠ '%') (rest : Name) : marker (letter :: rest) = none := by
  simp [marker, other]

/-- The numbers of the place markers of a text. -/
def marker_numbers (text : Name) : List Nat := (text.tails.filterMap marker).map Prod.fst

theorem marker_numbers_cons (letter : Char) (rest : Name) : marker_numbers (letter :: rest) =
    ((marker (letter :: rest)).map Prod.fst).toList ++ marker_numbers rest := by
  rw [marker_numbers, List.tails, List.filterMap_cons]
  cases marker (letter :: rest) <;> rfl

theorem marker_numbers_append {before : Name} (clean : '%' ∉ before) (text : Name) : marker_numbers (before ++ text) = marker_numbers text := by
  induction before with
  | nil => rfl
  | cons letter before ih =>
    obtain ⟨other, later⟩ := not_or.mp (fun among => clean (List.mem_cons.mpr among))
    rw [List.cons_append, marker_numbers_cons, marker_other (fun same => other same.symm), ih later]
    rfl

theorem replace_append {before : Name} (clean : '%' ∉ before) (number : Nat) (value text : Name) :
    replace_markers number value 0 (before ++ text) = before ++ replace_markers number value 0 text := by
  induction before with
  | nil => rfl
  | cons letter before ih =>
    obtain ⟨other, later⟩ := not_or.mp (fun among => clean (List.mem_cons.mpr among))
    rw [List.cons_append, replace_markers, marker_other (fun same => other same.symm)]
    exact congrArg (letter :: ·) (ih later)

theorem replace_none {number : Nat} {text : Name} (absent : number ∉ marker_numbers text) (value : Name) :
    replace_markers number value 0 text = text := by
  induction text with
  | nil => rfl
  | cons letter rest ih =>
    rw [marker_numbers_cons, List.mem_append, not_or] at absent
    rw [replace_markers]
    cases found : marker (letter :: rest) with
    | none => exact congrArg (letter :: ·) (ih absent.2)
    | some pair =>
      have other : pair.1 ≠ number := by
        have first := absent.1
        rw [found] at first
        simpa [eq_comm] using first
      simp only [if_neg other]
      exact congrArg (letter :: ·) (ih absent.2)

theorem arg_first {before after : Name} {digit : Char} {number : Nat} (clean : '%' ∉ before) (isMarker : marker ('%' :: digit :: after) =
    some (number, after)) (isDigit : digit ≠ '%') (lowest : ∀ other ∈ marker_numbers after, number < other) (value : Name) :
    arg (before ++ '%' :: digit :: after) value = before ++ value ++ after := by
  have numbers : marker_numbers (before ++ '%' :: digit :: after) = number :: marker_numbers after := by
    rw [marker_numbers_append clean, marker_numbers_cons, marker_numbers_cons, isMarker, marker_other isDigit]
    rfl
  have least : (marker_numbers (before ++ '%' :: digit :: after)).min? = some number := by
    rw [numbers, List.min?_eq_some_iff]
    refine ⟨List.mem_cons_self, fun other member => ?_⟩
    rcases List.mem_cons.mp member with rfl | later
    · exact le_rfl
    · exact (lowest other later).le
  have behind : replace_markers number value 0 after = after := replace_none (fun member => (lowest number member).ne rfl) value
  have skip : (digit :: after).length - after.length = 1 := by
    rw [List.length_cons]
    omega
  have lowest : (((before ++ '%' :: digit :: after).tails.filterMap marker).map Prod.fst).min? = some number := least
  rw [arg, lowest]
  simp only
  rw [replace_append clean, replace_markers, isMarker]
  simp only [if_true, skip]
  rw [replace_markers, behind, List.append_assoc]

theorem args_labels {one two three four : Name} (first : '%' ∉ one) (second : '%' ∉ two) (third : '%' ∉ three) :
    [one, two, three, four].foldl arg "%1.%2.%3.%4".toList = ['.'].intercalate [one, two, three, four] := by
  have step1 : arg ([] ++ '%' :: '1' :: ".%2.%3.%4".toList) one = [] ++ one ++ ".%2.%3.%4".toList :=
    @arg_first _ _ _ 1 List.not_mem_nil rfl (by decide) (by decide) one
  have step2 : arg ((one ++ ['.']) ++ '%' :: '2' :: ".%3.%4".toList) two = (one ++ ['.']) ++ two ++ ".%3.%4".toList :=
    @arg_first _ _ _ 2 (by simp [first]) rfl (by decide) (by decide) two
  have step3 : arg ((one ++ ['.'] ++ two ++ ['.']) ++ '%' :: '3' :: ".%4".toList) three = (one ++ ['.'] ++ two ++ ['.']) ++ three ++ ".%4".toList :=
    @arg_first _ _ _ 3 (by simp [first, second]) rfl (by decide) (by decide) three
  have step4 : arg ((one ++ ['.'] ++ two ++ ['.'] ++ three ++ ['.']) ++ '%' :: '4' :: []) four =
      (one ++ ['.'] ++ two ++ ['.'] ++ three ++ ['.']) ++ four ++ [] :=
    @arg_first _ _ _ 4 (by simp [first, second, third]) rfl (by decide) (by decide) four
  simp at step1 step2 step3 step4
  simp [List.intercalate, step1, step2, step3, step4]

/-! ## Numbers -/

theorem digit_bounds {digit : Char} (isDigit : digit.isDigit = true) : 48 ≤ digit.toNat ∧ digit.toNat ≤ 57 := by
  simp only [Char.isDigit, Bool.and_eq_true, decide_eq_true_eq, ge_iff_le, UInt32.le_iff_toNat_le] at isDigit
  exact isDigit

theorem digitChar_of_digit {digit : Char} (isDigit : digit.isDigit = true) : (digit.toNat - 48).digitChar = digit := by
  have bounds := digit_bounds isDigit
  have each : ∀ value : Fin 10, value.val.digitChar = Char.ofNat (48 + value.val) := by decide
  have found := each ⟨digit.toNat - 48, by omega⟩
  rw [found, Nat.add_sub_cancel' bounds.1, Char.ofNat_toNat]

theorem ofDigitChars_concat (base : Nat) (label : Name) (digit : Char) :
    Nat.ofDigitChars base (label ++ [digit]) 0 = base * Nat.ofDigitChars base label 0 + (digit.toNat - 48) := by
  rw [Nat.ofDigitChars_append, Nat.ofDigitChars_cons, Nat.ofDigitChars_nil]
  rfl

theorem decimal_number (digits : ∀ digit ∈ label, digit.isDigit = true) (filled : label ≠ [])
    (first : label.head? ≠ some '0') : 0 < number label ∧ decimal (number label) = label := by
  induction label using List.reverseRecOn with
  | nil => exact absurd rfl filled
  | append_singleton label digit ih =>
    have isDigit := digits digit (by simp)
    have bounds := digit_bounds isDigit
    rw [number, ofDigitChars_concat, decimal]
    by_cases single : label = []
    · subst single
      have other : digit ≠ '0' := fun same => first (by rw [same]; rfl)
      have notZero : digit.toNat ≠ 48 := fun same => other (Char.ext (UInt32.toNat_inj.mp same))
      rw [Nat.ofDigitChars_nil, Nat.mul_zero, Nat.zero_add, Nat.toDigits_of_lt_base (by omega), digitChar_of_digit isDigit]
      exact ⟨by omega, rfl⟩
    · obtain ⟨positive, spelled⟩ := ih (fun other member => digits other (by simp [member])) single
        (by rwa [List.head?_append_of_ne_nil _ single] at first)
      rw [number] at positive spelled
      refine ⟨by omega, ?_⟩
      rw [← Nat.toDigits_append_toDigits (by decide) positive (by omega), Nat.toDigits_of_lt_base (by omega : digit.toNat - 48 < 10),
        digitChar_of_digit isDigit]
      exact congrArg (· ++ [digit]) spelled

theorem numeral_spelled (numeral : Numeral label) :
    ∃ zeros, label = List.replicate zeros '0' ++ decimal (number label) := by
  obtain ⟨filled, digits⟩ := numeral
  induction label with
  | nil => exact absurd rfl filled
  | cons digit label ih =>
    by_cases zero : digit = '0'
    · subst zero
      by_cases single : label = []
      · subst single
        exact ⟨0, rfl⟩
      · obtain ⟨zeros, spelled⟩ := ih single (List.forall_mem_cons.mp digits).2
        refine ⟨zeros + 1, ?_⟩
        have same : number ('0' :: label) = number label := by
          rw [number, Nat.ofDigitChars_cons]
          rfl
        rw [same, List.replicate_succ, List.cons_append, ← spelled]
    · exact ⟨0, (decimal_number digits filled (by simpa using zero)).2.symm⟩

theorem number_decimal (value : Nat) : number (decimal value) = value := Nat.ofDigitChars_ten_toDigits

theorem decimal_head (value : Nat) (zero : (decimal value).head? = some '0') : value = 0 := by
  induction value using Nat.strong_induction_on with
  | _ value ih =>
    rw [decimal, Nat.toDigits_eq_if (by decide)] at zero
    split_ifs at zero with small
    · exact Nat.digitChar_eq_zero.mp (Option.some.inj zero)
    · rw [List.head?_append_of_ne_nil _ Nat.toDigits_ne_nil] at zero
      have none := ih (value / 10) (by omega) zero
      omega

theorem octal_small (digits : ∀ digit ∈ label, digit.isDigit = true) (small : number label < 8) :
    (∀ digit ∈ label, digit.toNat < 56) ∧ Nat.ofDigitChars 8 label 0 = number label := by
  induction label using List.reverseRecOn with
  | nil => exact ⟨fun _ member => absurd member List.not_mem_nil, rfl⟩
  | append_singleton label digit ih =>
    have bounds := digit_bounds (digits digit (by simp))
    rw [number, ofDigitChars_concat] at small ⊢
    obtain ⟨others, same⟩ := ih (fun other member => digits other (by simp [member])) (by rw [number]; omega)
    rw [number] at same
    rw [ofDigitChars_concat, same]
    refine ⟨fun other member => ?_, by omega⟩
    rcases List.mem_append.mp member with before | last
    · exact others other before
    · rw [List.mem_singleton.mp last]
      omega

theorem octal_large (digits : ∀ digit ∈ label, digit.isDigit = true) :
    Nat.ofDigitChars 8 label 0 ≤ number label ∧ (Nat.ofDigitChars 8 label 0 = number label → (∀ digit ∈ label, digit.toNat < 56) → number label < 8) := by
  induction label using List.reverseRecOn with
  | nil => exact ⟨le_rfl, fun _ _ => by decide⟩
  | append_singleton label digit ih =>
    have bounds := digit_bounds (digits digit (by simp))
    obtain ⟨below, same⟩ := ih (fun other member => digits other (by simp [member]))
    rw [number] at below ⊢
    rw [ofDigitChars_concat, ofDigitChars_concat]
    refine ⟨by omega, fun equal octal => ?_⟩
    have isOctal := octal digit (by simp)
    omega

theorem c_number_iff (numeral : Numeral label) :
    c_number label = some (number label) ↔ (label.head? = some '0' → number label < 8) := by
  rw [c_number]
  by_cases zero : label.head? = some '0'
  · rw [if_pos zero]
    constructor
    · intro same _
      split_ifs at same with octal
      exact (octal_large numeral.2).2 (Option.some.inj same) (by simpa using octal)
    · intro small
      obtain ⟨octal, same⟩ := octal_small numeral.2 (small zero)
      have isOctal : label.all (fun digit => digit.toNat < '8'.toNat) = true := by simpa using octal
      rw [if_pos isOctal, same]
  · rw [if_neg zero]
    exact iff_of_true rfl (fun isZero => absurd isZero zero)

theorem c_number_decimal (value : Nat) : c_number (decimal value) = some value := by
  have read := (c_number_iff (decimal_numeral value)).mpr fun zero => by rw [decimal_head value zero]; decide
  rwa [number_decimal] at read

theorem toLower_digit (lower : letter.toLower.isDigit = true) : letter.toLower = letter := by
  rw [Char.toLower] at lower ⊢
  split_ifs at lower ⊢ with upper
  · exfalso
    rw [ge_iff_le, UInt32.le_iff_toNat_le, UInt32.le_iff_toNat_le] at upper
    have first : ('A'.val).toNat = 65 := rfl
    have last : ('Z'.val).toNat = 90 := rfl
    have shift : ('a'.val - 'A'.val).toNat = 32 := rfl
    have bounds := digit_bounds lower
    change 48 ≤ (letter.val + ('a'.val - 'A'.val)).toNat ∧ (letter.val + ('a'.val - 'A'.val)).toNat ≤ 57 at bounds
    rw [UInt32.toNat_add, shift] at bounds
    omega
  · rfl

theorem same_label_decimal {value : Nat} : SameLabel (decimal value) label ↔ Numeral label ∧ number label = value := by
  constructor
  · rintro ⟨zeros, spelled⟩
    have digits : ∀ letter ∈ label, letter.toLower.isDigit = true := by
      intro letter member
      have among : letter.toLower ∈ List.replicate zeros '0' ++ decimal value := spelled ▸ List.mem_map_of_mem member
      rcases List.mem_append.mp among with zero | digit
      · rw [List.eq_of_mem_replicate zero]
        decide
      · exact (decimal_numeral value).2 _ digit
    have same : label.map Char.toLower = label := (List.map_congr_left fun letter member => toLower_digit (digits letter member)).trans (List.map_id _)
    rw [same] at spelled
    refine ⟨⟨?_, fun letter member => ?_⟩, ?_⟩
    · rw [spelled]
      exact List.append_ne_nil_of_right_ne_nil _ (decimal_numeral value).1
    · have digit := digits letter member
      rwa [toLower_digit digit] at digit
    · rw [number, spelled, Nat.ofDigitChars_append, Nat.ofDigitChars_replicate_zero, Nat.mul_zero]
      exact Nat.ofDigitChars_ten_toDigits
  · rintro ⟨numeral, rfl⟩
    obtain ⟨zeros, spelled⟩ := numeral_spelled numeral
    have same : label.map Char.toLower = label := by
      refine (List.map_congr_left fun letter member => ?_).trans (List.map_id _)
      rw [id, Char.toLower, dif_neg]
      intro upper
      rw [ge_iff_le, UInt32.le_iff_toNat_le] at upper
      have first : ('A'.val).toNat = 65 := rfl
      have bounds := digit_bounds (numeral.2 letter member)
      change 48 ≤ letter.val.toNat ∧ letter.val.toNat ≤ 57 at bounds
      omega
    exact ⟨zeros, same.trans spelled⟩

theorem hex_digit_iff : hex_digit letter = some digit ↔ digit < 16 ∧ letter.toLower = digit.digitChar := by
  have table : ∀ digit : Fin 16, "0123456789abcdef".toList.get (digit.cast (by decide)) = digit.val.digitChar := by decide
  have found : ∀ digit : Fin 16, "0123456789abcdef".toList.findIdx? (· == digit.val.digitChar) = some digit.val := by decide
  rw [hex_digit]
  constructor
  · intro here
    obtain ⟨inside, same, -⟩ := List.findIdx?_eq_some_iff_getElem.mp here
    have small : digit < 16 := inside
    exact ⟨small, (beq_iff_eq.mp same).symm.trans (table ⟨digit, small⟩)⟩
  · rintro ⟨small, same⟩
    rw [same]
    exact found ⟨digit, small⟩

theorem toLower_digitChar (small : digit < 16) : digit.digitChar.toLower = digit.digitChar := by
  have each : ∀ digit : Fin 16, digit.val.digitChar.toLower = digit.val.digitChar := by decide
  exact each ⟨digit, small⟩

theorem same_label_hexadecimal (small : digit < 16) (same : SameLabel (hexadecimal digit) label) :
    HexNumeral label := by
  obtain ⟨zeros, spelled⟩ := same
  rw [hexadecimal_eq small] at spelled
  constructor
  · rintro rfl
    simp at spelled
  · intro letter member
    have among : letter.toLower ∈ List.replicate zeros '0' ++ [digit.digitChar] := spelled ▸ List.mem_map_of_mem member
    rcases List.mem_append.mp among with zero | last
    · exact Option.isSome_iff_exists.mpr ⟨0, hex_digit_iff.mpr ⟨by decide, List.eq_of_mem_replicate zero⟩⟩
    · exact Option.isSome_iff_exists.mpr ⟨digit, hex_digit_iff.mpr ⟨small, List.mem_singleton.mp last⟩⟩

theorem same_label_digit (isHex : (hex_digit letter).isSome = true) :
    SameLabel (hexadecimal ((hex_digit letter).getD 0)) [letter] := by
  obtain ⟨digit, found⟩ := Option.isSome_iff_exists.mp isHex
  obtain ⟨small, same⟩ := hex_digit_iff.mp found
  rw [found, Option.getD_some, hexadecimal_eq small]
  exact ⟨0, by rw [List.map_singleton, same]; rfl⟩

/-! ## Groups -/

/-- The groups that are put together of 32 labels. -/
def chunks (digits : List Name) : List (List Name) := (List.range 8).map fun group => (digits.drop (4 * group)).take 4

theorem flatten_chunks {α : Type*} (digits : List α) (n : Nat) :
    ((List.range n).map fun group => (digits.drop (4 * group)).take 4).flatten = digits.take (4 * n) := by
  induction n with
  | zero => simp
  | succ n ih => rw [List.range_succ, List.map_append, List.flatten_append, ih, Nat.mul_succ, List.take_add]; simp

theorem fold_groups {groups : List Name} (four : ∀ group ∈ groups, group.length = 4) (first : Nat) :
    groups.foldl (fun value group => 65536 * value + hex_value group) first =
      groups.flatten.foldl (fun value letter => 16 * value + (hex_digit letter).getD 0) first := by
  induction groups generalizing first with
  | nil => rfl
  | cons group groups ih =>
    obtain ⟨here, there⟩ := List.forall_mem_cons.mp four
    rw [List.foldl_cons, List.flatten_cons, List.foldl_append, ih there]
    congr 1
    match group, here with
    | [a, b, c, d], _ =>
      simp only [hex_value, List.foldl_cons, List.foldl_nil]
      omega

theorem hex_value_reverse (letters : Name) : hex_value letters.reverse = Nat.ofDigits 16 (letters.map fun letter => (hex_digit letter).getD 0) := by
  rw [hex_value, List.foldl_reverse]
  induction letters with
  | nil => rfl
  | cons letter letters ih =>
    rw [List.foldr_cons, ih, List.map_cons, Nat.ofDigits_cons]
    exact Nat.add_comm _ _

theorem singletons {labels : List Name} (single : ∀ label ∈ labels, label.length = 1) : labels = labels.flatten.map fun letter => [letter] := by
  induction labels with
  | nil => rfl
  | cons label labels ih =>
    obtain ⟨here, there⟩ := List.forall_mem_cons.mp single
    obtain ⟨letter, rfl⟩ := List.length_eq_one_iff.mp here
    rw [List.flatten_cons, List.singleton_append, List.map_cons, ← ih there]

theorem length_le_of_sum {labels : List Name} (filled : ∀ label ∈ labels, label ≠ []) (few : labels.flatten.length ≤ labels.length) :
    ∀ label ∈ labels, label.length = 1 := by
  have atLeast : ∀ labels : List Name, (∀ label ∈ labels, label ≠ []) → labels.length ≤ labels.flatten.length := by
    intro labels filled
    induction labels with
    | nil => exact le_rfl
    | cons label labels ih =>
      obtain ⟨here, there⟩ := List.forall_mem_cons.mp filled
      have positive := List.length_pos_of_ne_nil here
      have more := ih there
      rw [List.length_cons, List.flatten_cons, List.length_append]
      omega
  induction labels with
  | nil => exact fun _ member => absurd member List.not_mem_nil
  | cons label labels ih =>
    obtain ⟨here, there⟩ := List.forall_mem_cons.mp filled
    have positive := List.length_pos_of_ne_nil here
    have more := atLeast labels there
    rw [List.length_cons, List.flatten_cons, List.length_append] at few
    exact List.forall_mem_cons.mpr ⟨by omega, ih there (by omega)⟩

/-! ## What is read -/

section
variable {parse : Name → HostAddress}

theorem rev_ip6 {host : Name} (is6 : IsIp6 (host.splitOn '.')) :
    RevDnsHost2Address parse host = parse ([':'].intercalate ((chunks ((host.splitOn '.').take 32).reverse).map List.flatten)) := by
  rw [RevDnsHost2Address, chunks, List.map_map]
  exact if_pos is6

theorem rev_in_addr {host one two three four : Name} {rest : List Name} (not6 : ¬ IsIp6 (host.splitOn '.'))
    (labels : host.splitOn '.' = one :: two :: three :: four :: "in-addr".toList :: "arpa".toList :: rest) :
    RevDnsHost2Address parse host = parse ([four, three, two, one].foldl arg "%1.%2.%3.%4".toList) := by
  rw [RevDnsHost2Address]
  refine (if_neg not6).trans ?_
  rw [labels]
  exact if_pos ⟨by simp, rfl, rfl⟩

theorem rev_labels {host : Name} (some : RevDnsHost2Address parse host ≠ .null) (not6 : ¬ IsIp6 (host.splitOn '.')) :
    ∃ one two three four rest, host.splitOn '.' = one :: two :: three :: four :: "in-addr".toList :: "arpa".toList :: rest := by
  rw [RevDnsHost2Address] at some
  change (if IsIp6 (host.splitOn '.') then _ else _) ≠ _ at some
  rw [if_neg not6] at some
  by_cases form : (host.splitOn '.').length ≥ 4 + 2 ∧ (host.splitOn '.')[4]? = "in-addr".toList ∧ (host.splitOn '.')[5]? = "arpa".toList
  · obtain ⟨long, fifth, sixth⟩ := form
    match host.splitOn '.', long, fifth, sixth with
    | one :: two :: three :: four :: five :: six :: rest, _, fifth, sixth =>
      simp only [List.getElem?_cons_succ, List.getElem?_cons_zero, Option.some.injEq] at fifth sixth
      exact ⟨one, two, three, four, rest, by rw [fifth, sixth]⟩
  · exact absurd (if_neg form) some

variable (reads : ReadsAddresses parse) {host : Name}
include reads

theorem read_ip6 (is6 : IsIp6 (host.splitOn '.')) {letters : Name} (labels : (host.splitOn '.').take 32 = letters.map fun letter => [letter])
    (isHex : ∀ letter ∈ letters, (hex_digit letter).isSome = true) :
    RevDnsHost2Address parse host = .ipv6 (BitVec.ofNat 128 (Nat.ofDigits 16 (letters.map fun letter => (hex_digit letter).getD 0))) := by
  have long : letters.length = 32 := by
    have length := congrArg List.length labels
    rw [List.length_take, List.length_map, Nat.min_eq_left (by have := is6.1; omega)] at length
    exact length.symm
  have groups : (chunks ((host.splitOn '.').take 32).reverse).map List.flatten =
      (List.range 8).map fun group => (letters.reverse.drop (4 * group)).take 4 := by
    rw [labels, chunks, List.map_map]
    refine List.map_congr_left fun group _ => ?_
    rw [Function.comp_apply, ← List.map_reverse, ← List.map_drop, ← List.map_take]
    exact List.flatMap_singleton' _
  have four : ∀ group ∈ (List.range 8).map (fun group => (letters.reverse.drop (4 * group)).take 4), group.length = 4 := by
    intro group member
    obtain ⟨i, isSmall, rfl⟩ := List.mem_map.mp member
    have small := List.mem_range.mp isSmall
    rw [List.length_take, List.length_drop, List.length_reverse, long]
    omega
  have hex : ∀ group ∈ (List.range 8).map (fun group => (letters.reverse.drop (4 * group)).take 4), HexNumeral group := by
    intro group member
    refine ⟨List.ne_nil_of_length_pos (by rw [four group member]; decide), fun letter among => ?_⟩
    obtain ⟨i, -, rfl⟩ := List.mem_map.mp member
    exact isHex letter (List.mem_reverse.mp (List.mem_of_mem_drop (List.mem_of_mem_take among)))
  have whole : ((List.range 8).map fun group => (letters.reverse.drop (4 * group)).take 4).flatten = letters.reverse := by
    rw [flatten_chunks, List.take_of_length_le (by rw [List.length_reverse, long])]
  rw [rev_ip6 is6, groups, reads.coloned _ (by rw [List.length_map, List.length_range]) hex, if_pos (fun group member => (four group member).le),
    fold_groups four, whole]
  exact congrArg (fun value => HostAddress.ipv6 (BitVec.ofNat 128 value)) (hex_value_reverse letters)

theorem read_in_addr {one two three four : Name} {rest : List Name} (not6 : ¬ IsIp6 (host.splitOn '.'))
    (labels : host.splitOn '.' = one :: two :: three :: four :: "in-addr".toList :: "arpa".toList :: rest)
    (first : Numeral one) (second : Numeral two) (third : Numeral three) (fourth : Numeral four) :
    RevDnsHost2Address parse host =
      match c_number four, c_number three, c_number two, c_number one with
      | some a, some b, some c, some d =>
        if a < 256 ∧ b < 256 ∧ c < 256 ∧ d < 256 then .ipv4 (UInt32.ofNat (((a * 256 + b) * 256 + c) * 256 + d)) else .null
      | _, _, _, _ => .null := by
  have clean {label : Name} (numeral : Numeral label) : '%' ∉ label := fun member => absurd (numeral.2 '%' member) (by decide)
  rw [rev_in_addr not6 labels, args_labels (clean fourth) (clean third) (clean second)]
  exact reads.dotted four three two one fourth third second first

/-! ## There and back -/

omit reads in
theorem not_ip6_of_in_addr {one two three four : Name} {rest : List Name} (short : rest.length < 28) :
    ¬ IsIp6 (one :: two :: three :: four :: "in-addr".toList :: "arpa".toList :: rest) := by
  rintro ⟨long, -⟩
  simp only [List.length_cons] at long
  omega

theorem round_trip {address : HostAddress} (isAddress : address ≠ .null ∧ address ≠ .any) {more : List Name} (few : more.length ≤ 1)
    (labels : host.splitOn '.' = reverse_labels address ++ more) : RevDnsHost2Address parse host = address := by
  cases address with
  | null => exact absurd rfl isAddress.1
  | any => exact absurd rfl isAddress.2
  | ipv4 value =>
    have small := value.toNat_lt
    rw [reverse_labels_ipv4] at labels
    have not6 : ¬ IsIp6 (host.splitOn '.') := by
      rw [labels]
      exact not_ip6_of_in_addr (Nat.lt_of_le_of_lt few (by decide))
    rw [read_in_addr reads not6 labels (decimal_numeral _) (decimal_numeral _) (decimal_numeral _) (decimal_numeral _)]
    simp only [c_number_decimal]
    rw [if_pos (by omega)]
    congr 1
    rw [← UInt32.toNat_inj, UInt32.toNat_ofNat']
    omega
  | ipv6 value =>
    rw [reverse_labels_ipv6, List.append_assoc] at labels
    have long : ((nibbles 32 value.toNat).map hexadecimal).length = 32 := by rw [List.length_map, length_nibbles]
    have is6 : IsIp6 (host.splitOn '.') := by
      rw [labels]
      refine ⟨?_, ?_, ?_⟩
      · rw [List.length_append, long, List.length_append]
        exact Nat.add_le_add_left (Nat.le_add_right 2 _) 32
      · rw [List.getElem?_append_right (by omega), long]
        rfl
      · rw [List.getElem?_append_right (by omega), long]
        rfl
    have digit (value : Nat) (small : value < 16) : hex_digit value.digitChar = some value := hex_digit_iff.mpr ⟨small, toLower_digitChar small⟩
    have taken : (host.splitOn '.').take 32 = ((nibbles 32 value.toNat).map Nat.digitChar).map fun letter => [letter] := by
      rw [labels, List.take_append_of_le_length long.ge, List.take_of_length_le long.le, List.map_map]
      exact List.map_congr_left fun digit member => hexadecimal_eq (nibbles_small member)
    have isHex : ∀ letter ∈ (nibbles 32 value.toNat).map Nat.digitChar, (hex_digit letter).isSome = true := by
      intro letter member
      obtain ⟨value, isNibble, rfl⟩ := List.mem_map.mp member
      rw [digit value (nibbles_small isNibble)]
      rfl
    have values : ((nibbles 32 value.toNat).map Nat.digitChar).map (fun letter => (hex_digit letter).getD 0) = nibbles 32 value.toNat := by
      rw [List.map_map]
      refine (List.map_congr_left fun value member => ?_).trans (List.map_id _)
      rw [Function.comp_apply, digit value (nibbles_small member)]
      rfl
    have small : value.toNat < 16 ^ 32 := value.isLt
    rw [read_ip6 reads is6 taken isHex, values, ofDigits_nibbles, Nat.mod_eq_of_lt small, BitVec.ofNat_toNat]
    simp

/-! ## Names that spell the address -/

omit reads in
theorem mem_forall₂ {α β : Type*} {R : α → β → Prop} {l : List α} {l' : List β} (related : List.Forall₂ R l l') :
    ∀ b ∈ l', ∃ a ∈ l, R a b := by
  induction related with
  | nil => exact fun _ member => absurd member List.not_mem_nil
  | cons here there ih =>
    rw [List.forall_mem_cons]
    refine ⟨⟨_, List.mem_cons_self, here⟩, fun b member => ?_⟩
    obtain ⟨a, among, related⟩ := ih b member
    exact ⟨a, List.mem_cons_of_mem _ among, related⟩

omit reads in
theorem spells_hex {value : BitVec 128} (spells : Spells host (.ipv6 value)) : ∀ label ∈ (host.splitOn '.').take 32, HexNumeral label := by
  rw [Spells, reverse_labels_ipv6] at spells
  have long : ((nibbles 32 value.toNat).map hexadecimal).length = 32 := by rw [List.length_map, length_nibbles]
  have taken := List.forall₂_take 32 spells
  rw [List.take_append_of_le_length long.ge, List.take_of_length_le long.le, List.take_take, List.length_append, long, Nat.min_eq_left (by simp)] at taken
  intro label member
  obtain ⟨own, isOwn, same⟩ := mem_forall₂ taken label member
  obtain ⟨digit, isDigit, rfl⟩ := List.mem_map.mp isOwn
  exact same_label_hexadecimal (nibbles_small isDigit) same

omit reads in
theorem colon_mem (labels : List Name) : ':' ∈ [':'].intercalate ((chunks labels).map List.flatten) := by
  have split : ∃ first next more, (chunks labels).map List.flatten = first :: next :: more := ⟨_, _, _, rfl⟩
  obtain ⟨first, next, more, same⟩ := split
  rw [same, List.intercalate, List.intersperse_cons_cons, List.flatten_cons, List.flatten_cons]
  simp

theorem single_digits (is6 : IsIp6 (host.splitOn '.')) (filled : RevDnsHost2Address parse host ≠ .null)
    (isHex : ∀ label ∈ (host.splitOn '.').take 32, HexNumeral label) : ∀ label ∈ (host.splitOn '.').take 32, label.length = 1 := by
  have long : ((host.splitOn '.').take 32).reverse.length = 32 := by
    have length := is6.1
    rw [List.length_reverse, List.length_take]
    omega
  have isDigits : ∀ label ∈ ((host.splitOn '.').take 32).reverse, HexNumeral label := fun label member => isHex label (List.mem_reverse.mp member)
  generalize labels : ((host.splitOn '.').take 32).reverse = digits at long isDigits
  have whole : (chunks digits).flatten = digits := by
    rw [chunks, flatten_chunks, List.take_of_length_le (by rw [long])]
  have hex : ∀ group ∈ (chunks digits).map List.flatten, HexNumeral group := by
    intro group member
    obtain ⟨chunk, isChunk, rfl⟩ := List.mem_map.mp member
    have among : ∀ label ∈ chunk, HexNumeral label := fun label here => isDigits label (whole ▸ List.mem_flatten.mpr ⟨chunk, isChunk, here⟩)
    obtain ⟨i, small, rfl⟩ := List.mem_map.mp isChunk
    have some : ((digits.drop (4 * i)).take 4) ≠ [] := by
      refine List.ne_nil_of_length_pos ?_
      have bound := List.mem_range.mp small
      rw [List.length_take, List.length_drop, long]
      omega
    obtain ⟨label, more, split⟩ := List.exists_cons_of_ne_nil some
    refine ⟨?_, fun letter isLetter => ?_⟩
    · rw [split, List.flatten_cons]
      exact List.append_ne_nil_of_left_ne_nil (among label (by rw [split]; exact List.mem_cons_self)).1 _
    · obtain ⟨label, isLabel, inside⟩ := List.mem_flatten.mp isLetter
      exact (among label isLabel).2 letter inside
  rw [rev_ip6 is6, labels, reads.coloned _ (by rw [List.length_map, chunks, List.length_map, List.length_range]) hex] at filled
  have few : ∀ group ∈ (chunks digits).map List.flatten, group.length ≤ 4 := by
    by_contra more
    exact filled (if_neg more)
  have total : digits.flatten.length ≤ digits.length := by
    have same : digits.flatten = ((chunks digits).map List.flatten).flatten := by
      conv_lhs => rw [← whole]
      exact List.flatten_flatten
    have bound : (((chunks digits).map List.flatten).map List.length).sum ≤ (((chunks digits).map List.flatten).map List.length).length • 4 := by
      refine List.sum_le_card_nsmul _ 4 fun length member => ?_
      obtain ⟨group, isGroup, rfl⟩ := List.mem_map.mp member
      exact few group isGroup
    rw [same, List.length_flatten, long]
    rw [List.length_map, List.length_map, chunks, List.length_map, List.length_range] at bound
    exact bound
  intro label member
  exact length_le_of_sum (fun label member => (isDigits label member).1) total label (labels ▸ List.mem_reverse.mpr member)

theorem spells_ip6 (is6 : IsIp6 (host.splitOn '.')) (filled : RevDnsHost2Address parse host ≠ .null) :
    Spells host (RevDnsHost2Address parse host) ↔ ∀ label ∈ (host.splitOn '.').take 32, PlainDigit label := by
  constructor
  · intro spells
    cases read : RevDnsHost2Address parse host with
    | null => exact absurd read filled
    | any =>
      rw [rev_ip6 is6] at read
      exact absurd read (reads.known _)
    | ipv4 value =>
      rw [rev_ip6 is6] at read
      exact absurd (colon_mem _) (reads.colon _ value read)
    | ipv6 value =>
      rw [read] at spells
      have isHex := spells_hex spells
      exact fun label member => ⟨isHex label member, single_digits reads is6 filled isHex label member⟩
  · intro plain
    obtain ⟨long, isIp6, isArpa⟩ := id is6
    have labels : (host.splitOn '.').take 32 = ((host.splitOn '.').take 32).flatten.map fun letter => [letter] :=
      singletons fun label member => (plain label member).2
    generalize letters : ((host.splitOn '.').take 32).flatten = digits at labels
    have length : digits.length = 32 := by
      have same := congrArg List.length labels
      rw [List.length_take, List.length_map, Nat.min_eq_left (by omega)] at same
      exact same.symm
    have isHex : ∀ letter ∈ digits, (hex_digit letter).isSome = true := by
      intro letter member
      obtain ⟨label, isLabel, inside⟩ := List.mem_flatten.mp (letters ▸ member)
      exact (plain label isLabel).1.2 letter inside
    have small : ∀ value ∈ digits.map (fun letter => (hex_digit letter).getD 0), value < 16 := by
      intro value member
      obtain ⟨letter, isLetter, rfl⟩ := List.mem_map.mp member
      obtain ⟨digit, found⟩ := Option.isSome_iff_exists.mp (isHex letter isLetter)
      rw [found]
      exact (hex_digit_iff.mp found).1
    have bound := Nat.ofDigits_lt_base_pow_length (by decide : 1 < 16) small
    rw [List.length_map, length] at bound
    have fits : Nat.ofDigits 16 (digits.map fun letter => (hex_digit letter).getD 0) < 2 ^ 128 := bound
    have value := nibbles_ofDigits small
    rw [List.length_map, length] at value
    have behind : (host.splitOn '.').take 34 = (host.splitOn '.').take 32 ++ ["ip6".toList, "arpa".toList] := by
      rw [List.take_add_one, List.take_add_one, isIp6, isArpa, List.append_assoc]
      rfl
    rw [read_ip6 reads is6 labels isHex, Spells, reverse_labels_ipv6, BitVec.toNat_ofNat, Nat.mod_eq_of_lt fits, value, List.length_append,
      List.length_map, List.length_map, length]
    change List.Forall₂ SameLabel _ ((host.splitOn '.').take 34)
    rw [behind, labels]
    refine List.rel_append ?_ ?_
    · rw [List.forall₂_map_right_iff, List.map_map, List.forall₂_map_left_iff, List.forall₂_same]
      exact fun letter member => same_label_digit (isHex letter member)
    · exact .cons ⟨0, by decide⟩ (.cons ⟨0, by decide⟩ .nil)

theorem spells_in_addr (not6 : ¬ IsIp6 (host.splitOn '.')) (filled : RevDnsHost2Address parse host ≠ .null) :
    Spells host (RevDnsHost2Address parse host) ↔ ∀ label ∈ (host.splitOn '.').take 4, PlainNumber label := by
  obtain ⟨one, two, three, four, rest, labels⟩ := rev_labels filled not6
  have four_labels : (host.splitOn '.').take 4 = [one, two, three, four] := by rw [labels]; rfl
  constructor
  · intro spells
    cases read : RevDnsHost2Address parse host with
    | null => exact absurd read filled
    | any =>
      rw [rev_in_addr not6 labels] at read
      exact absurd read (reads.known _)
    | ipv6 value =>
      rw [read] at spells
      have impossible := spells_hex spells "in-addr".toList (by rw [labels]; simp)
      exact absurd (impossible.2 'i' (by decide)) (by decide +kernel)
    | ipv4 value =>
      rw [read, Spells, reverse_labels_ipv4, labels] at spells
      obtain ⟨first, second, third, fourth, -⟩ : SameLabel _ one ∧ SameLabel _ two ∧ SameLabel _ three ∧ SameLabel _ four ∧ True := by
        cases spells with
        | cons first spells =>
          cases spells with
          | cons second spells =>
            cases spells with
            | cons third spells =>
              cases spells with
              | cons fourth spells => exact ⟨first, second, third, fourth, trivial⟩
      obtain ⟨numeral1, number1⟩ := same_label_decimal.mp first
      obtain ⟨numeral2, number2⟩ := same_label_decimal.mp second
      obtain ⟨numeral3, number3⟩ := same_label_decimal.mp third
      obtain ⟨numeral4, number4⟩ := same_label_decimal.mp fourth
      rw [read_in_addr reads not6 labels numeral1 numeral2 numeral3 numeral4] at read
      split at read
      case h_2 => cases read
      case h_1 a b c d isA isB isC isD =>
        split_ifs at read with bounds
        obtain ⟨smallA, smallB, smallC, smallD⟩ := bounds
        have isValue : value.toNat = ((a * 256 + b) * 256 + c) * 256 + d := by
          rw [← HostAddress.ipv4.inj read, UInt32.toNat_ofNat']
          omega
        have plain {label : Name} {found : Nat} (numeral : Numeral label) (isNumber : c_number label = some found) (same : number label = found) :
            PlainNumber label := ⟨numeral, (c_number_iff numeral).mp (by rw [isNumber, same])⟩
        rw [four_labels]
        simp only [List.forall_mem_cons, List.not_mem_nil, false_implies, implies_true, and_true]
        exact ⟨plain numeral1 isD (by omega), plain numeral2 isC (by omega), plain numeral3 isB (by omega), plain numeral4 isA (by omega)⟩
  · intro plain
    rw [four_labels] at plain
    simp only [List.forall_mem_cons, List.not_mem_nil, false_implies, implies_true, and_true] at plain
    obtain ⟨first, second, third, fourth⟩ := plain
    have read := read_in_addr reads not6 labels first.1 second.1 third.1 fourth.1
    rw [(c_number_iff first.1).mpr first.2, (c_number_iff second.1).mpr second.2, (c_number_iff third.1).mpr third.2,
      (c_number_iff fourth.1).mpr fourth.2] at read
    by_cases small : number four < 256 ∧ number three < 256 ∧ number two < 256 ∧ number one < 256
    · simp only [if_pos small] at read
      have value : (UInt32.ofNat (((number four * 256 + number three) * 256 + number two) * 256 + number one)).toNat =
          ((number four * 256 + number three) * 256 + number two) * 256 + number one := by
        rw [UInt32.toNat_ofNat']
        omega
      rw [read, Spells, reverse_labels_ipv4, value, labels]
      refine .cons (same_label_decimal.mpr ⟨first.1, by omega⟩) (.cons (same_label_decimal.mpr ⟨second.1, by omega⟩)
        (.cons (same_label_decimal.mpr ⟨third.1, by omega⟩) (.cons (same_label_decimal.mpr ⟨fourth.1, by omega⟩)
          (.cons ⟨0, by decide⟩ (.cons ⟨0, by decide⟩ .nil)))))
    · simp only [if_neg small] at read
      exact absurd read filled

omit host in
/-- An address comes back from its reverse name, with or without a dot at its end; and a name that is read as an address spells the reverse
name of that address exactly when its labels are plain. -/
theorem reverse_names : (∀ address, address ≠ .null ∧ address ≠ .any →
      RevDnsHost2Address parse (reverse_name address) = address ∧ RevDnsHost2Address parse (reverse_name address ++ ['.']) = address) ∧
    ∀ host, RevDnsHost2Address parse host ≠ .null → (Spells host (RevDnsHost2Address parse host) ↔ Plain host) := by
  refine ⟨fun address isAddress => ⟨?_, ?_⟩, fun host filled => ?_⟩
  · have short : ([] : List Name).length ≤ 1 := Nat.zero_le 1
    exact round_trip reads isAddress short (List.append_nil _).symm
  · exact round_trip reads isAddress (le_refl 1) (List.splitOn_append_cons_self _ _)
  · rw [Plain]
    split_ifs with is6
    · exact spells_ip6 reads is6 filled
    · exact spells_in_addr reads is6 filled

end

/-! ## A reader of addresses -/

/-- `QHostAddress` of a text with nothing but the digits of an address in it. -/
def read_address (text : Name) : HostAddress :=
  match text.splitOn '.' with
  | [one, two, three, four] =>
    if Numeral one ∧ Numeral two ∧ Numeral three ∧ Numeral four then
      match c_number one, c_number two, c_number three, c_number four with
      | some a, some b, some c, some d =>
        if a < 256 ∧ b < 256 ∧ c < 256 ∧ d < 256 then .ipv4 (UInt32.ofNat (((a * 256 + b) * 256 + c) * 256 + d)) else .null
      | _, _, _, _ => .null
    else .null
  | [text] =>
    let groups := text.splitOn ':'
    if groups.length = 8 ∧ (∀ group ∈ groups, HexNumeral group) ∧ ∀ group ∈ groups, group.length ≤ 4 then
      .ipv6 (BitVec.ofNat 128 (groups.foldl (fun value group => 65536 * value + hex_value group) 0))
    else .null
  | _ => .null

theorem not_hex (other : hex_digit letter = none) {group : Name} (isHex : HexNumeral group) : letter ∉ group := by
  intro member
  have found := isHex.2 letter member
  rw [other] at found
  cases found

theorem read_address_reads : ReadsAddresses read_address where
  dotted one two three four first second third fourth := by
    have clean : ∀ label ∈ [one, two, three, four], '.' ∉ label := by
      simp only [List.forall_mem_cons, List.not_mem_nil, false_implies, implies_true, and_true]
      exact ⟨dot_of_digit first.2, dot_of_digit second.2, dot_of_digit third.2, dot_of_digit fourth.2⟩
    rw [read_address, List.splitOn_intercalate '.' clean (List.cons_ne_nil _ _)]
    exact if_pos ⟨first, second, third, fourth⟩
  coloned groups eight isHex := by
    have filled : groups ≠ [] := List.ne_nil_of_length_pos (by omega)
    have split := List.splitOn_intercalate ':' (fun group member => not_hex (by decide +kernel) (isHex group member)) filled
    have whole : ([':'].intercalate groups).splitOn '.' = [[':'].intercalate groups] := by
      refine List.splitOn_eq_singleton fun member => ?_
      rcases ByteText.mem_intercalate member with colon | ⟨group, isGroup, inside⟩
      · exact absurd colon (by decide)
      · exact not_hex (by decide +kernel) (isHex group isGroup) inside
    rw [read_address, whole]
    simp only [split, eight, true_and]
    exact if_congr (and_iff_right isHex) rfl rfl
  colon text value read := by
    rw [read_address] at read
    split at read
    case h_1 one two three four split =>
      split_ifs at read with numerals
      have whole : text = ['.'].intercalate [one, two, three, four] := by rw [← split, List.intercalate_splitOn]
      have clean {label : Name} (numeral : Numeral label) : ':' ∉ label := fun member => absurd (numeral.2 ':' member) (by decide)
      rw [whole]
      intro member
      rcases ByteText.mem_intercalate member with colon | ⟨label, isLabel, inside⟩
      · exact absurd colon (by decide)
      · simp only [List.mem_cons, List.not_mem_nil, or_false] at isLabel
        rcases isLabel with rfl | rfl | rfl | rfl
        · exact clean numerals.1 inside
        · exact clean numerals.2.1 inside
        · exact clean numerals.2.2.1 inside
        · exact clean numerals.2.2.2 inside
    case h_2 single _ =>
      simp only at read
      split_ifs at read
    case h_3 => cases read
  known text := by
    rw [read_address]
    split
    · split_ifs
      · split
        · split_ifs <;> exact fun same => by cases same
        · exact fun same => by cases same
      · exact fun same => by cases same
    · simp only
      split_ifs <;> exact fun same => by cases same
    · exact fun same => by cases same

/-- The address 10.0.0.1 and back. -/
theorem reverse_names_there_and_back : RevDnsHost2Address read_address (reverse_name (.ipv4 0x0A000001)) = .ipv4 0x0A000001 ∧
    RevDnsHost2Address read_address (reverse_name (.ipv6 1) ++ ['.']) = .ipv6 1 ∧
    (Spells "1.0.0.10.in-addr.arpa".toList (.ipv4 0x0A000001) ↔ Plain "1.0.0.10.in-addr.arpa".toList) := by
  obtain ⟨back, spelled⟩ := reverse_names read_address_reads
  have read : RevDnsHost2Address read_address "1.0.0.10.in-addr.arpa".toList = .ipv4 0x0A000001 := (back (.ipv4 0x0A000001) (by decide)).1
  have both := spelled "1.0.0.10.in-addr.arpa".toList (by rw [read]; decide)
  rw [read] at both
  exact ⟨read, (back (.ipv6 1) (by decide)).2, both⟩

/-- A label with a place marker takes another label in, and one with a leading zero is read as an octal number. -/
theorem names_misread :
    (RevDnsHost2Address read_address "1.2.3.%4.in-addr.arpa".toList = .ipv4 0x01030201 ∧ ¬ Spells "1.2.3.%4.in-addr.arpa".toList (.ipv4 0x01030201)) ∧
    RevDnsHost2Address read_address "1.0.0.010.in-addr.arpa".toList = .ipv4 0x08000001 ∧ ¬ Spells "1.0.0.010.in-addr.arpa".toList (.ipv4 0x08000001) := by
  have marked : RevDnsHost2Address read_address "1.2.3.%4.in-addr.arpa".toList = .ipv4 0x01030201 := by decide +kernel
  have octal : RevDnsHost2Address read_address "1.0.0.010.in-addr.arpa".toList = .ipv4 0x08000001 := by decide +kernel
  refine ⟨⟨marked, fun spells => ?_⟩, octal, fun spells => ?_⟩
  · rw [← marked] at spells
    have plain := (spells_in_addr read_address_reads (by decide) (by rw [marked]; decide)).mp spells
    exact absurd plain (by decide)
  · rw [← octal] at spells
    have plain := (spells_in_addr read_address_reads (by decide) (by rw [octal]; decide)).mp spells
    exact absurd plain (by decide)

end TaskExplorer.ReverseNames
