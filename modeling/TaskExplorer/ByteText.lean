import TaskExplorer.Utf8

/-!
# Texts in bytes

Words between blanks, numbers as digits and UTF-8, as `QByteArray` and `QString` read them.
-/

namespace TaskExplorer.ByteText
open Utf8

abbrev Bytes := List UInt8

/-! ## Words -/

section Words
variable {α : Type*} {blank : α → Bool}

/-- What stands between blanks. -/
def words (blank : α → Bool) (l : List α) : List (List α) := (l.splitOnP blank).filter fun word => !word.isEmpty

/-- The words with one blank between them. -/
def simplified (blank : α → Bool) (space : α) (l : List α) : List α := [space].intercalate (words blank l)

theorem words_nil : words blank [] = [] := by simp [words]

variable {space : α}

theorem words_append_cons (l l' : List α) (h : blank space = true) :
    words blank (l ++ space :: l') = words blank l ++ words blank l' := by
  rw [words, List.splitOnP_append_cons l l' h, List.filter_append]
  rfl

theorem words_cons (l : List α) (h : blank space = true) : words blank (space :: l) = words blank l := by
  have e := words_append_cons [] l h
  rwa [List.nil_append, words_nil, List.nil_append] at e

theorem words_blanks (n : Nat) (l : List α) (h : blank space = true) :
    words blank (List.replicate n space ++ l) = words blank l := by
  induction n with
  | zero => rfl
  | succ n ih => rw [List.replicate_succ, List.cons_append, words_cons _ h, ih]

/-- A word: something without blanks. -/
def Word (blank : α → Bool) (word : List α) : Prop := word ≠ [] ∧ ∀ c ∈ word, blank c = false

theorem words_word {word : List α} (h : Word blank word) : words blank word = [word] := by
  rw [words, List.splitOnP_eq_singleton h.2]
  simp [h.1]

theorem words_word_append {word : List α} (h : Word blank word) (l : List α) (is_blank : blank space = true) :
    words blank (word ++ space :: l) = word :: words blank l := by
  rw [words_append_cons word l is_blank, words_word h, List.singleton_append]

theorem mem_words {word l : List α} (member : word ∈ words blank l) : Word blank word := by
  rw [words, List.mem_filter] at member
  refine ⟨by simpa [List.isEmpty_iff] using member.2, ?_⟩
  have pieces : ∀ word ∈ l.splitOnP blank, ∀ c ∈ word, blank c = false := by
    clear member word
    induction l with
    | nil => simp
    | cons x rest ih =>
      rw [List.splitOnP_cons_eq_if_modifyHead]
      split_ifs with here
      · intro word member
        rcases List.mem_cons.mp member with rfl | later
        · simp
        · exact ih word later
      · obtain ⟨first, others, split⟩ := List.exists_cons_of_ne_nil (List.splitOnP_ne_nil blank rest)
        rw [split] at ih ⊢
        intro word member
        rcases List.mem_cons.mp member with rfl | later
        · intro c hc
          rcases List.mem_cons.mp hc with rfl | inside
          · simpa using here
          · exact ih first (by simp) c inside
        · exact ih word (by simp [later])
  exact pieces word member.1

theorem words_intercalate (is_blank : blank space = true) (ws : List (List α)) (h : ∀ word ∈ ws, Word blank word) :
    words blank ([space].intercalate ws) = ws := by
  induction ws with
  | nil => exact words_nil
  | cons word rest ih =>
    cases rest with
    | nil => simpa [List.intercalate] using words_word (h word (by simp))
    | cons next rest =>
      have later := ih fun other member => h other (by simp [member])
      rw [List.intercalate_cons_cons, List.append_assoc, List.singleton_append, words_word_append (h word (by simp)) _ is_blank, later]

theorem simplified_split [BEq α] [LawfulBEq α] (is_blank : blank space = true) {l : List α} (h : words blank l ≠ []) :
    (simplified blank space l).splitOn space = words blank l := by
  refine List.splitOn_intercalate space (fun word member here => ?_) h
  rw [(mem_words member).2 space here] at is_blank
  exact Bool.false_ne_true is_blank

theorem mem_intercalate {c : α} {ws : List (List α)} (h : c ∈ [space].intercalate ws) :
    c = space ∨ ∃ word ∈ ws, c ∈ word := by
  induction ws with
  | nil => simp [List.intercalate] at h
  | cons word rest ih =>
    cases rest with
    | nil => exact .inr ⟨word, by simp, by simpa [List.intercalate] using h⟩
    | cons next rest =>
      rw [List.intercalate_cons_cons, List.mem_append, List.mem_append, List.mem_singleton] at h
      rcases h with (here | between) | later
      · exact .inr ⟨word, by simp, here⟩
      · exact .inl between
      · rcases ih later with between | ⟨other, member, inside⟩
        · exact .inl between
        · exact .inr ⟨other, by simp [member], inside⟩

/-- How many places the words take, each with one for the blank behind it. -/
def places (ws : List (List α)) : Nat := (ws.map fun word => word.length + 1).sum

theorem words_places (l : List α) : places (words blank l) ≤ l.length + 1 := by
  -- the first part counts for one more while it is empty
  have strong : places ((l.splitOnP blank).filter fun word => !word.isEmpty) + (if ((l.splitOnP blank).headD []).isEmpty then 1 else 0) ≤ l.length + 1 := by
    induction l with
    | nil => simp [places]
    | cons x rest ih =>
      obtain ⟨first, others, split⟩ := List.exists_cons_of_ne_nil (List.splitOnP_ne_nil blank rest)
      rw [List.splitOnP_cons_eq_if_modifyHead]
      rw [split] at ih ⊢
      cases first with
      | nil =>
        by_cases here : blank x = true
        · simp [places, here] at ih ⊢
          omega
        · simp [places, here] at ih ⊢
          omega
      | cons c first =>
        by_cases here : blank x = true
        · simp [places, here] at ih ⊢
          omega
        · simp [places, here] at ih ⊢
          omega
  rw [words]
  omega

theorem intercalate_places (space : α) (ws : List (List α)) : ([space].intercalate ws).length ≤ places ws - 1 := by
  induction ws with
  | nil => simp [List.intercalate]
  | cons word rest ih =>
    cases rest with
    | nil => simp [List.intercalate, places]
    | cons next rest =>
      rw [List.intercalate_cons_cons]
      simp only [places, List.map_cons, List.sum_cons, List.length_append, List.length_singleton] at ih ⊢
      omega

theorem simplified_length (space : α) (l : List α) : (simplified blank space l).length ≤ l.length := by
  have short := intercalate_places space (words blank l)
  have few := @words_places _ blank l
  rw [simplified]
  omega

end Words

/-! ## Digits -/

/-- The value of a digit. -/
def digit (base : Nat) (c : UInt8) : Option Nat :=
  let value := if 48 ≤ c ∧ c ≤ 57 then c.toNat - 48 else if 97 ≤ c ∧ c ≤ 122 then c.toNat - 87 else if 65 ≤ c ∧ c ≤ 90 then c.toNat - 55 else base
  if value < base then value else none

def digit_char (d : Nat) : UInt8 := if d < 10 then (48 + d).toUInt8 else (87 + d).toUInt8

/-- The number that digits make. -/
def number (base : Nat) (bytes : Bytes) : Option Nat :=
  if bytes = [] then none else (bytes.mapM (digit base)).map fun digits => Nat.ofDigits base digits.reverse

/-- A number in digits. -/
def text (base n : Nat) : Bytes := if n = 0 then [48] else (Nat.digits base n).reverse.map digit_char

/-- A number in so many digits at least. -/
def padded (base width n : Nat) : Bytes := List.replicate (width - (text base n).length) 48 ++ text base n

section Digits
variable {base : Nat}

theorem digit_facts : ∀ d : Fin 16, digit 16 (digit_char d) = some d.val ∧ (d.val < 10 → digit 10 (digit_char d) = some d.val) ∧
    (48 ≤ digit_char d ∧ digit_char d ≤ 57 ∨ 97 ≤ digit_char d ∧ digit_char d ≤ 102) := by decide

theorem digit_digit_char (h : base = 10 ∨ base = 16) {d : Nat} (hd : d < base) : digit base (digit_char d) = some d := by
  rcases h with rfl | rfl
  · exact (digit_facts ⟨d, by omega⟩).2.1 hd
  · exact (digit_facts ⟨d, hd⟩).1

theorem mapM_digits (h : base = 10 ∨ base = 16) {digits : List Nat} (small : ∀ d ∈ digits, d < base) :
    (digits.map digit_char).mapM (digit base) = some digits := by
  induction digits with
  | nil => rfl
  | cons d rest ih =>
    rw [List.map_cons, List.mapM_cons, digit_digit_char h (small d (by simp)), ih fun e member => small e (by simp [member])]
    rfl

theorem padded_eq (h : base = 10 ∨ base = 16) (width n : Nat) :
    ∃ digits : List Nat, padded base width n = digits.map digit_char ∧ digits ≠ [] ∧ (∀ d ∈ digits, d < base) ∧ Nat.ofDigits base digits.reverse = n := by
  have large : 1 < base := by omega
  have zero : digit_char 0 = 48 := by decide
  rw [padded, text]
  split_ifs with is_zero
  · refine ⟨List.replicate (width - 1) 0 ++ [0], by simp [zero], by simp, ?_, ?_⟩
    · intro d member
      have : d = 0 := by simpa [or_iff_right_of_imp And.right] using member
      omega
    · rw [List.reverse_append, List.reverse_replicate, List.reverse_singleton, Nat.ofDigits_append_replicate_zero, is_zero]
      simp
  · refine ⟨List.replicate (width - ((Nat.digits base n).reverse.map digit_char).length) 0 ++ (Nat.digits base n).reverse, ?_, ?_, ?_, ?_⟩
    · rw [List.map_append, List.map_replicate, zero]
    · simp [Nat.digits_ne_nil_iff_ne_zero.mpr is_zero]
    · intro d member
      rcases List.mem_append.mp member with front | digits
      · have := List.eq_of_mem_replicate front
        omega
      · exact Nat.digits_lt_base large (List.mem_reverse.mp digits)
    · rw [List.reverse_append, List.reverse_replicate, List.reverse_reverse, Nat.ofDigits_append_replicate_zero, Nat.ofDigits_digits]

theorem number_padded (h : base = 10 ∨ base = 16) (width n : Nat) : number base (padded base width n) = some n := by
  obtain ⟨digits, written, nonempty, small, value⟩ := padded_eq h width n
  rw [number, written, if_neg (by simpa using nonempty), mapM_digits h small, Option.map_some, value]

theorem text_eq_padded (base n : Nat) : text base n = padded base 0 n := by simp [padded]

theorem number_text (h : base = 10 ∨ base = 16) (n : Nat) : number base (text base n) = some n := by
  rw [text_eq_padded, number_padded h]

theorem padded_chars (h : base = 10 ∨ base = 16) (width n : Nat) : padded base width n ≠ [] ∧
    ∀ c ∈ padded base width n, 48 ≤ c ∧ c ≤ 57 ∨ 97 ≤ c ∧ c ≤ 102 := by
  obtain ⟨digits, written, nonempty, small, -⟩ := padded_eq h width n
  rw [written]
  refine ⟨by simpa using nonempty, fun c member => ?_⟩
  obtain ⟨d, inside, rfl⟩ := List.mem_map.mp member
  have := small d inside
  exact (digit_facts ⟨d, by omega⟩).2.2

end Digits

/-! ## Numbers -/

/-- `toULongLong` and `toUInt`: 0 for what is no number, or none below the limit. -/
def to_unsigned (limit base : Nat) (bytes : Bytes) : Option Nat :=
  let digits := if bytes.head? = some 43 then bytes.tail else bytes
  (number base digits).filter (· < limit)

/-- `toLongLong`. -/
def to_signed (bytes : Bytes) : Option Int :=
  if bytes.head? = some 45 then ((number 10 bytes.tail).filter (· ≤ 2 ^ 63)).map fun n : Nat => -(n : Int)
  else (to_unsigned (2 ^ 63) 10 bytes).map fun n : Nat => (n : Int)

/-- A number in decimal, with its sign. -/
def decimal (n : Int) : Bytes := if n < 0 then 45 :: text 10 n.natAbs else text 10 n.natAbs

theorem padded_head {base : Nat} (h : base = 10 ∨ base = 16) (width n : Nat) {c : UInt8} (other : c < 48) : (padded base width n).head? ≠ some c := by
  intro first
  have bounds := (padded_chars h width n).2 c (List.mem_of_mem_head? first)
  rcases bounds with ⟨low, -⟩ | ⟨low, -⟩
  · exact absurd low (UInt8.not_le.mpr other)
  · exact absurd low (UInt8.not_le.mpr (UInt8.lt_trans other (by decide)))

theorem to_unsigned_padded {limit base : Nat} (h : base = 10 ∨ base = 16) (width : Nat) {n : Nat} (fits : n < limit) :
    to_unsigned limit base (padded base width n) = some n := by
  rw [to_unsigned, if_neg (padded_head h width n (by decide)), number_padded h]
  simp [fits]

theorem to_signed_decimal {n : Int} (low : -2 ^ 63 ≤ n) (high : n < 2 ^ 63) : to_signed (decimal n) = some n := by
  rw [to_signed, decimal]
  split_ifs with negative minus minus
  · rw [List.tail_cons, number_text (.inl rfl), Option.filter_some, if_pos (by simp; omega), Option.map_some]
    congr 1
    omega
  · simp at minus
  · rw [text_eq_padded] at minus
    exact absurd minus (padded_head (.inl rfl) 0 _ (by decide))
  · rw [text_eq_padded, to_unsigned_padded (.inl rfl) 0 (by omega), Option.map_some]
    congr 1
    omega

/-- A number with a sign is none for `toULongLong`. -/
theorem to_unsigned_decimal (limit : Nat) {n : Int} (fits : n < limit) : to_unsigned limit 10 (decimal n) = if 0 ≤ n then some n.toNat else none := by
  rw [decimal]
  split_ifs with negative positive positive
  · omega
  · have minus : digit 10 45 = none := by decide
    rw [to_unsigned, if_neg (by simp), number, if_neg (by simp), List.mapM_cons, minus]
    rfl
  · rw [text_eq_padded, to_unsigned_padded (.inl rfl) 0 (by omega)]
    congr 1
    omega
  · omega

/-! ## UTF-8 -/

def toUtf8 (s : List Char) : Bytes := s.flatMap String.utf8EncodeChar

/-- The byte order mark. -/
def bom : Char := '\uFEFF'

/-- `QString::fromUtf8`: a byte order mark in front is left out, ill-formed bytes become U+FFFD. -/
def fromUtf8 (bytes : Bytes) : List Char :=
  (pieces none (if String.utf8EncodeChar bom <+: bytes then bytes.drop 3 else bytes)).map fun
    | .char c => c
    | .ill _ => '\uFFFD'

theorem encode_prefix_iff (c : Char) (s : List Char) : String.utf8EncodeChar c <+: toUtf8 s ↔ s.head? = some c := by
  constructor
  · intro starts
    cases s with
    | nil => exact absurd (List.prefix_nil.mp starts) String.utf8EncodeChar_ne_nil
    | cons d rest =>
      have first : String.utf8EncodeChar d <+: toUtf8 (d :: rest) := ⟨toUtf8 rest, (List.flatMap_cons ..).symm⟩
      rcases List.prefix_or_prefix_of_prefix starts first with one | one
      · rw [encode_unique one]
        rfl
      · rw [encode_unique one]
        rfl
  · intro first
    obtain ⟨rest, rfl⟩ := List.head?_eq_some_iff.mp first
    exact ⟨toUtf8 rest, (List.flatMap_cons ..).symm⟩

theorem fromUtf8_toUtf8 (s : List Char) : fromUtf8 (toUtf8 s) = if s.head? = some bom then s.tail else s := by
  have plain (s : List Char) : (pieces none (toUtf8 s)).map (fun | .char c => c | .ill _ => '\uFFFD') = s := by
    have whole := pieces_encode s []
    rw [List.append_nil, show pieces none [] = [] from rfl, List.append_nil] at whole
    rw [toUtf8, whole, List.map_map]
    exact List.map_id s
  have marked := encode_prefix_iff bom s
  rw [fromUtf8]
  by_cases first : s.head? = some bom
  · obtain ⟨rest, rfl⟩ := List.head?_eq_some_iff.mp first
    rw [if_pos (marked.mpr first), if_pos first, List.tail_cons, show (toUtf8 (bom :: rest)).drop 3 = toUtf8 rest from rfl, plain]
  · rw [if_neg (mt marked.mp first), if_neg first, plain]

/-- What `isspace` is true of. -/
def is_space (c : UInt8) : Bool := c == 32 || (9 ≤ c && c ≤ 13)

/-- The characters that are such bytes. -/
def space_char (c : Char) : Bool := c.toNat == 32 || (9 ≤ c.toNat && c.toNat ≤ 13)

theorem space_cases : ∀ k : Fin 256, is_space k.val.toUInt8 = (k.val == 32 || (9 ≤ k.val && k.val ≤ 13)) := by decide +kernel

theorem is_space_ofNat {n : Nat} (small : n < 256) : is_space (UInt8.ofNat n) = (n == 32 || (9 ≤ n && n ≤ 13)) := space_cases ⟨n, small⟩

theorem encode_space (c : Char) : (space_char c = true → ∃ byte, String.utf8EncodeChar c = [byte] ∧ is_space byte = true) ∧
    (space_char c = false → ∀ byte ∈ String.utf8EncodeChar c, is_space byte = false) := by
  have high {n : Nat} (low : 0x80 ≤ n) (small : n < 256) : is_space (UInt8.ofNat n) = false := by
    rw [is_space_ofNat small]
    simp
    omega
  have number {n : Nat} (valid : n.isValidChar) : (Char.ofNat n).toNat = n := toNat_ofNat valid
  rcases encode_forms c with ⟨n, small, rfl, form⟩ | ⟨n, low, small, rfl, form⟩ | ⟨n, low, small, scalar, rfl, form⟩ | ⟨n, low, small, rfl, form⟩
  · rw [form, space_char, number (.inl (by omega)), ← is_space_ofNat (by omega)]
    simp
  all_goals
    have valid : n.isValidChar := by
      simp only [Nat.isValidChar]
      omega
    rw [form, space_char, number valid]
    refine ⟨fun blank => ?_, fun _ byte member => ?_⟩
    · simp at blank
      omega
    · simp only [List.mem_cons, List.not_mem_nil, or_false] at member
      rcases member with rfl | rfl | rfl | rfl <;> exact high (by omega) (by omega)

theorem splitOnP_word {α : Type*} {blank : α → Bool} {word : List α} (h : ∀ c ∈ word, blank c = false) (l : List α) :
    (word ++ l).splitOnP blank = (l.splitOnP blank).modifyHead (word ++ ·) := by
  induction word with
  | nil =>
    obtain ⟨first, others, split⟩ := List.exists_cons_of_ne_nil (List.splitOnP_ne_nil blank l)
    simp [split]
  | cons c rest ih =>
    have plain := h c (by simp)
    rw [List.cons_append, List.splitOnP_cons_eq_if_modifyHead, if_neg (by simp [plain]), ih fun d member => h d (by simp [member]),
      List.modifyHead_modifyHead]
    rfl

theorem splitOnP_toUtf8 (s : List Char) : (toUtf8 s).splitOnP is_space = (s.splitOnP space_char).map toUtf8 := by
  induction s with
  | nil => rfl
  | cons c rest ih =>
    have whole : toUtf8 (c :: rest) = String.utf8EncodeChar c ++ toUtf8 rest := List.flatMap_cons ..
    rw [whole, List.splitOnP_cons_eq_if_modifyHead]
    cases blank : space_char c with
    | true =>
      obtain ⟨byte, form, is_blank⟩ := (encode_space c).1 blank
      rw [form, List.singleton_append, List.splitOnP_cons_eq_if_modifyHead, if_pos is_blank, if_pos rfl, ih]
      rfl
    | false =>
      obtain ⟨first, others, split⟩ := List.exists_cons_of_ne_nil (List.splitOnP_ne_nil space_char rest)
      rw [splitOnP_word ((encode_space c).2 blank), ih, if_neg (by simp), split]
      simp [toUtf8]

theorem words_toUtf8 (s : List Char) : words is_space (toUtf8 s) = (words space_char s).map toUtf8 := by
  have empty (word : List Char) : (toUtf8 word).isEmpty = word.isEmpty := by
    cases word with
    | nil => rfl
    | cons c rest =>
      have some : String.utf8EncodeChar c ≠ [] := String.utf8EncodeChar_ne_nil
      simp [toUtf8, some]
  rw [words, words, splitOnP_toUtf8, List.filter_map]
  congr 1
  exact List.filter_congr fun word _ => by simp [empty]

theorem simplified_toUtf8 (s : List Char) : simplified is_space 32 (toUtf8 s) = toUtf8 (simplified space_char ' ' s) := by
  rw [simplified, simplified, words_toUtf8]
  induction words space_char s with
  | nil => rfl
  | cons word rest ih =>
    cases rest with
    | nil => simp [List.intercalate]
    | cons next rest =>
      rw [List.map_cons, List.map_cons, List.intercalate_cons_cons, List.intercalate_cons_cons]
      rw [List.map_cons] at ih
      have parts : toUtf8 (word ++ [' '] ++ [' '].intercalate (next :: rest)) =
          toUtf8 word ++ [32] ++ toUtf8 ([' '].intercalate (next :: rest)) := by
        rw [toUtf8, List.flatMap_append, List.flatMap_append]
        rfl
      rw [ih, parts]

theorem fromUtf8_simplified_iff (s : List Char) :
    fromUtf8 (simplified is_space 32 (toUtf8 s)) = s ↔ simplified space_char ' ' s = s ∧ s.head? ≠ some bom := by
  have short := @simplified_length _ space_char ' ' s
  rw [simplified_toUtf8, fromUtf8_toUtf8]
  split_ifs with first
  · -- without its first character the text is shorter than it was
    have smaller : (simplified space_char ' ' s).tail ≠ s := by
      intro same
      have length := congrArg List.length same
      rw [List.length_tail] at length
      have some : simplified space_char ' ' s ≠ [] := by
        intro nothing
        rw [nothing] at first
        simp at first
      have := List.length_pos_iff.mpr some
      omega
    refine ⟨fun same => absurd same smaller, fun ⟨same, unmarked⟩ => ?_⟩
    rw [same] at first
    exact absurd first unmarked
  · refine ⟨fun same => ⟨same, ?_⟩, And.left⟩
    rwa [same] at first

theorem fromUtf8_no_space {bytes : Bytes} (text : ∀ byte ∈ bytes, is_space byte = false) : ∀ c ∈ fromUtf8 bytes, space_char c = false := by
  intro c member
  obtain ⟨piece, inside, same⟩ := List.mem_map.mp member
  cases piece with
  | ill part =>
    rw [← same]
    exact (by decide : space_char '\uFFFD' = false)
  | char d =>
    obtain rfl : d = c := same
    by_contra blank
    rw [Bool.not_eq_false] at blank
    obtain ⟨byte, form, is_blank⟩ := (encode_space d).1 blank
    have among : byte ∈ if String.utf8EncodeChar bom <+: bytes then bytes.drop 3 else bytes := by
      rw [← (pieces_correct (if String.utf8EncodeChar bom <+: bytes then bytes.drop 3 else bytes)).1]
      exact List.mem_flatMap.mpr ⟨.char d, inside, by rw [Piece.bytes, form]; exact List.mem_singleton_self byte⟩
    have there : byte ∈ bytes := by
      split_ifs at among
      · exact List.mem_of_mem_drop among
      · exact among
    rw [text byte there] at is_blank
    cases is_blank

end TaskExplorer.ByteText
