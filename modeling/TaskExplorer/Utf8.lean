import Mathlib

/-!
# Well-formed and ill-formed UTF-8

A byte string is cut into pieces: the encodings of characters, and the ill-formed pieces
between them, each as long as it can be and still be the start of an encoding. A decoder
takes one byte at a time and keeps what it has of an encoding.
-/

namespace TaskExplorer.Utf8

/-! ## The pieces of a byte string -/

/-- The start of an encoding: its bytes, how many bytes are missing, between which bounds the next one has to be, and the number
that the bytes spell so far. -/
structure Pending where
  seen : List UInt8
  left : Nat
  low : Nat
  high : Nat
  value : Nat

/-- The bounds of a second byte: nothing shorter would do, and the character is no surrogate and not too large. -/
def secondLow (first : Nat) : Nat := if first = 0xE0 then 0xA0 else if first = 0xF0 then 0x90 else 0x80

def secondHigh (first : Nat) : Nat := if first = 0xED then 0x9F else if first = 0xF4 then 0x8F else 0xBF

/-- What the first byte of an encoding of more than one byte says. -/
def lead (byte : UInt8) : Option Pending :=
  let n := byte.toNat
  if n < 0xC2 then none
  else if n < 0xE0 then some ⟨[byte], 1, 0x80, 0xBF, n - 0xC0⟩
  else if n < 0xF0 then some ⟨[byte], 2, secondLow n, secondHigh n, n - 0xE0⟩
  else if n < 0xF5 then some ⟨[byte], 3, secondLow n, secondHigh n, n - 0xF0⟩
  else none

def Pending.takes (pending : Pending) (byte : UInt8) : Prop := pending.low ≤ byte.toNat ∧ byte.toNat ≤ pending.high

instance (pending : Pending) (byte : UInt8) : Decidable (pending.takes byte) := inferInstanceAs (Decidable (_ ∧ _))

def Pending.next (pending : Pending) (byte : UInt8) : Pending :=
  ⟨pending.seen ++ [byte], pending.left - 1, 0x80, 0xBF, pending.value * 64 + (byte.toNat - 0x80)⟩

inductive Piece where
  | char (c : Char)
  | ill (bytes : List UInt8)
deriving DecidableEq

def Piece.bytes : Piece → List UInt8
  | .char c => String.utf8EncodeChar c
  | .ill bytes => bytes

/-- A byte that is not taken for the next one of an encoding. -/
def fresh (next : Option Pending → List Piece) (byte : UInt8) : List Piece :=
  if byte.toNat < 0x80 then .char (Char.ofNat byte.toNat) :: next none
  else
    match lead byte with
    | some pending => next (some pending)
    | none => .ill [byte] :: next none

def pieces : Option Pending → List UInt8 → List Piece
  | none, [] => []
  | some pending, [] => [.ill pending.seen]
  | none, byte :: rest => fresh (fun state => pieces state rest) byte
  | some pending, byte :: rest =>
    if pending.takes byte then
      if pending.left = 1 then .char (Char.ofNat (pending.next byte).value) :: pieces none rest
      else pieces (some (pending.next byte)) rest
    else .ill pending.seen :: fresh (fun state => pieces state rest) byte

/-- Some bytes begin an encoding. -/
def Starts (bytes : List UInt8) : Prop := ∃ c, bytes <+: String.utf8EncodeChar c

/-- A piece is ill-formed and cannot be longer: it is the start of an encoding that the next byte does not go on with, or a single
byte that no encoding begins with. -/
def Maximal (piece rest : List UInt8) : Prop :=
  (piece ≠ [] ∧ Starts piece ∧ (∀ c, ¬ String.utf8EncodeChar c <+: piece ++ rest) ∧ ∀ byte, rest.head? = some byte → ¬ Starts (piece ++ [byte])) ∨
    ∃ byte, piece = [byte] ∧ ¬ Starts [byte]

/-! ## Starts of encodings -/

/-- What the bytes of a start are, and what is missing. -/
inductive Pending.Ok : Pending → Prop where
  | two {v : Nat} (low : 2 ≤ v) (high : v < 0x20) : Ok ⟨[UInt8.ofNat (0xC0 + v)], 1, 0x80, 0xBF, v⟩
  | three {v : Nat} (high : v < 0x10) : Ok ⟨[UInt8.ofNat (0xE0 + v)], 2, secondLow (0xE0 + v), secondHigh (0xE0 + v), v⟩
  | threeTwo {v : Nat} (low : 0x20 ≤ v) (high : v < 0x400) (surrogate : ¬ (0x360 ≤ v ∧ v < 0x380)) :
      Ok ⟨[UInt8.ofNat (0xE0 + v / 64), UInt8.ofNat (0x80 + v % 64)], 1, 0x80, 0xBF, v⟩
  | four {v : Nat} (high : v < 5) : Ok ⟨[UInt8.ofNat (0xF0 + v)], 3, secondLow (0xF0 + v), secondHigh (0xF0 + v), v⟩
  | fourTwo {v : Nat} (low : 0x10 ≤ v) (high : v < 0x110) :
      Ok ⟨[UInt8.ofNat (0xF0 + v / 64), UInt8.ofNat (0x80 + v % 64)], 2, 0x80, 0xBF, v⟩
  | fourThree {v : Nat} (low : 0x400 ≤ v) (high : v < 0x4400) :
      Ok ⟨[UInt8.ofNat (0xF0 + v / 4096), UInt8.ofNat (0x80 + v / 64 % 64), UInt8.ofNat (0x80 + v % 64)], 1, 0x80, 0xBF, v⟩

variable {byte : UInt8} {pending : Pending}

theorem lead_ok (isLead : lead byte = some pending) : pending.Ok := by
  have bound := byte.toNat_lt
  unfold lead at isLead
  dsimp only at isLead
  split_ifs at isLead with below two three four
  · have isByte : 0xC0 + (byte.toNat - 0xC0) = byte.toNat := by omega
    have ok := @Pending.Ok.two (byte.toNat - 0xC0) (by omega) (by omega)
    rw [isByte, UInt8.ofNat_toNat] at ok
    exact Option.some.inj isLead ▸ ok
  · have isByte : 0xE0 + (byte.toNat - 0xE0) = byte.toNat := by omega
    have ok := @Pending.Ok.three (byte.toNat - 0xE0) (by omega)
    rw [isByte, UInt8.ofNat_toNat] at ok
    exact Option.some.inj isLead ▸ ok
  · have isByte : 0xF0 + (byte.toNat - 0xF0) = byte.toNat := by omega
    have ok := @Pending.Ok.four (byte.toNat - 0xF0) (by omega)
    rw [isByte, UInt8.ofNat_toNat] at ok
    exact Option.some.inj isLead ▸ ok

theorem lead_spec (isLead : lead byte = some pending) :
    0xC2 ≤ byte.toNat ∧ byte.toNat < 0xE0 ∧ pending.left = 1 ∧ pending.value = byte.toNat - 0xC0 ∨
    0xE0 ≤ byte.toNat ∧ byte.toNat < 0xF0 ∧ pending.left = 2 ∧ pending.value = byte.toNat - 0xE0 ∨
    0xF0 ≤ byte.toNat ∧ byte.toNat < 0xF5 ∧ pending.left = 3 ∧ pending.value = byte.toNat - 0xF0 := by
  unfold lead at isLead
  dsimp only at isLead
  split_ifs at isLead with below two three four <;> cases isLead
  · exact .inl ⟨by omega, two, rfl, rfl⟩
  · exact .inr (.inl ⟨by omega, three, rfl, rfl⟩)
  · exact .inr (.inr ⟨by omega, four, rfl, rfl⟩)

theorem lead_seen (isLead : lead byte = some pending) : pending.seen = [byte] := by
  unfold lead at isLead
  dsimp only at isLead
  split_ifs at isLead <;> exact Option.some.inj isLead ▸ rfl

theorem tail_byte (low : 0x80 ≤ byte.toNat) (high : byte.toNat ≤ 0xBF) (v : Nat) :
    byte = UInt8.ofNat (0x80 + (v * 64 + (byte.toNat - 0x80)) % 64) := by
  have same : 0x80 + (v * 64 + (byte.toNat - 0x80)) % 64 = byte.toNat := by omega
  rw [same, UInt8.ofNat_toNat]

theorem Pending.Ok.bounds (ok : pending.Ok) : 0x80 ≤ pending.low ∧ pending.high ≤ 0xBF ∧ 1 ≤ pending.left := by
  cases ok <;> simp only [secondLow, secondHigh] <;> try split_ifs
  all_goals omega

theorem Pending.Ok.next (ok : pending.Ok) (takes : pending.takes byte) (more : pending.left ≠ 1) :
    (pending.next byte).Ok := by
  obtain ⟨low, high, -⟩ := ok.bounds
  obtain ⟨above, below⟩ := takes
  have isTail := tail_byte (low.trans above) (below.trans high)
  cases ok with
  | two => exact absurd rfl more
  | threeTwo => exact absurd rfl more
  | fourThree => exact absurd rfl more
  | @three v small =>
    have isFirst : (v * 64 + (byte.toNat - 0x80)) / 64 = v := by omega
    have inside : 0x20 ≤ v * 64 + (byte.toNat - 0x80) ∧ ¬ (0x360 ≤ v * 64 + (byte.toNat - 0x80) ∧ v * 64 + (byte.toNat - 0x80) < 0x380) := by
      simp only [secondLow, secondHigh] at above below
      split_ifs at above below <;> omega
    have further := Pending.Ok.threeTwo inside.1 (by omega) inside.2
    rwa [isFirst, ← isTail] at further
  | @four v small =>
    have isFirst : (v * 64 + (byte.toNat - 0x80)) / 64 = v := by omega
    have inside : 0x10 ≤ v * 64 + (byte.toNat - 0x80) ∧ v * 64 + (byte.toNat - 0x80) < 0x110 := by
      simp only [secondLow, secondHigh] at above below
      split_ifs at above below <;> omega
    have further := Pending.Ok.fourTwo inside.1 inside.2
    rwa [isFirst, ← isTail] at further
  | @fourTwo v least most =>
    have isFirst : (v * 64 + (byte.toNat - 0x80)) / 4096 = v / 64 := by omega
    have isSecond : (v * 64 + (byte.toNat - 0x80)) / 64 % 64 = v % 64 := by omega
    have further := @Pending.Ok.fourThree (v * 64 + (byte.toNat - 0x80)) (by omega) (by omega)
    rwa [isFirst, isSecond, ← isTail] at further

/-! ## Whole encodings -/

theorem toNat_ofNat {n : Nat} (valid : n.isValidChar) : (Char.ofNat n).val.toNat = n := by
  rw [Char.ofNat, dif_pos valid]
  rfl

theorem encode_one {n : Nat} (high : n < 0x80) : String.utf8EncodeChar (Char.ofNat n) = [UInt8.ofNat n] := by
  have valid : n.isValidChar := .inl (by omega)
  simp only [String.utf8EncodeChar, toNat_ofNat valid]
  rw [if_pos (by omega)]

theorem encode_two {n : Nat} (low : 0x80 ≤ n) (high : n < 0x800) :
    String.utf8EncodeChar (Char.ofNat n) = [UInt8.ofNat (0xC0 + n / 64), UInt8.ofNat (0x80 + n % 64)] := by
  have valid : n.isValidChar := .inl (by omega)
  have first : n / 64 % 0x20 + 0xC0 = 0xC0 + n / 64 := by omega
  have second : n % 0x40 + 0x80 = 0x80 + n % 64 := by omega
  simp only [String.utf8EncodeChar, toNat_ofNat valid]
  rw [if_neg (by omega), if_pos (by omega), first, second]

theorem encode_three {n : Nat} (valid : n.isValidChar) (low : 0x800 ≤ n) (high : n < 0x10000) :
    String.utf8EncodeChar (Char.ofNat n) =
      [UInt8.ofNat (0xE0 + n / 4096), UInt8.ofNat (0x80 + n / 64 % 64), UInt8.ofNat (0x80 + n % 64)] := by
  have first : n / 4096 % 0x10 + 0xE0 = 0xE0 + n / 4096 := by omega
  have second : n / 64 % 0x40 + 0x80 = 0x80 + n / 64 % 64 := by omega
  have third : n % 0x40 + 0x80 = 0x80 + n % 64 := by omega
  simp only [String.utf8EncodeChar, toNat_ofNat valid]
  rw [if_neg (by omega), if_neg (by omega), if_pos (by omega), first, second, third]

theorem encode_four {n : Nat} (valid : n.isValidChar) (low : 0x10000 ≤ n) :
    String.utf8EncodeChar (Char.ofNat n) =
      [UInt8.ofNat (0xF0 + n / 262144), UInt8.ofNat (0x80 + n / 4096 % 64), UInt8.ofNat (0x80 + n / 64 % 64), UInt8.ofNat (0x80 + n % 64)] := by
  have most : n < 0x110000 := by
    rcases valid with below | above <;> omega
  have first : n / 262144 % 0x08 + 0xF0 = 0xF0 + n / 262144 := by omega
  have second : n / 4096 % 0x40 + 0x80 = 0x80 + n / 4096 % 64 := by omega
  have third : n / 64 % 0x40 + 0x80 = 0x80 + n / 64 % 64 := by omega
  have fourth : n % 0x40 + 0x80 = 0x80 + n % 64 := by omega
  simp only [String.utf8EncodeChar, toNat_ofNat valid]
  rw [if_neg (by omega), if_neg (by omega), if_neg (by omega), first, second, third, fourth]

theorem Pending.Ok.whole (ok : pending.Ok) (takes : pending.takes byte) (last : pending.left = 1) :
    (pending.next byte).value.isValidChar ∧
      String.utf8EncodeChar (Char.ofNat (pending.next byte).value) = pending.seen ++ [byte] := by
  obtain ⟨low, high, -⟩ := ok.bounds
  obtain ⟨above, below⟩ := takes
  have isTail := tail_byte (low.trans above) (below.trans high)
  cases ok with
  | three => cases last
  | four => cases last
  | fourTwo => cases last
  | @two v least most =>
    have isFirst : (v * 64 + (byte.toNat - 0x80)) / 64 = v := by omega
    have encoded := @encode_two (v * 64 + (byte.toNat - 0x80)) (by omega) (by omega)
    rw [isFirst, ← isTail] at encoded
    exact ⟨.inl (by simp only [Pending.next]; omega), encoded⟩
  | @threeTwo v least most surrogate =>
    have isFirst : (v * 64 + (byte.toNat - 0x80)) / 4096 = v / 64 := by omega
    have isSecond : (v * 64 + (byte.toNat - 0x80)) / 64 % 64 = v % 64 := by omega
    have valid : (v * 64 + (byte.toNat - 0x80)).isValidChar := by
      simp only [Nat.isValidChar]
      omega
    have encoded := encode_three valid (by omega) (by omega)
    rw [isFirst, isSecond, ← isTail] at encoded
    exact ⟨valid, encoded⟩
  | @fourThree v least most =>
    have isFirst : (v * 64 + (byte.toNat - 0x80)) / 262144 = v / 4096 := by omega
    have isSecond : (v * 64 + (byte.toNat - 0x80)) / 4096 % 64 = v / 64 % 64 := by omega
    have isThird : (v * 64 + (byte.toNat - 0x80)) / 64 % 64 = v % 64 := by omega
    have valid : (v * 64 + (byte.toNat - 0x80)).isValidChar := .inr (by omega)
    have encoded := encode_four valid (by omega)
    rw [isFirst, isSecond, isThird, ← isTail] at encoded
    exact ⟨valid, encoded⟩

theorem encode_forms (c : Char) :
    (∃ n < 0x80, c = Char.ofNat n ∧ String.utf8EncodeChar c = [UInt8.ofNat n]) ∨
    (∃ n, 0x80 ≤ n ∧ n < 0x800 ∧ c = Char.ofNat n ∧ String.utf8EncodeChar c = [UInt8.ofNat (0xC0 + n / 64), UInt8.ofNat (0x80 + n % 64)]) ∨
    (∃ n, 0x800 ≤ n ∧ n < 0x10000 ∧ ¬ (0xD800 ≤ n ∧ n < 0xE000) ∧ c = Char.ofNat n ∧
      String.utf8EncodeChar c = [UInt8.ofNat (0xE0 + n / 4096), UInt8.ofNat (0x80 + n / 64 % 64), UInt8.ofNat (0x80 + n % 64)]) ∨
    ∃ n, 0x10000 ≤ n ∧ n < 0x110000 ∧ c = Char.ofNat n ∧ String.utf8EncodeChar c =
      [UInt8.ofNat (0xF0 + n / 262144), UInt8.ofNat (0x80 + n / 4096 % 64), UInt8.ofNat (0x80 + n / 64 % 64), UInt8.ofNat (0x80 + n % 64)] := by
  obtain ⟨n, valid, rfl⟩ : ∃ n : Nat, n.isValidChar ∧ c = Char.ofNat n := ⟨c.toNat, c.valid, c.ofNat_toNat.symm⟩
  have limits := valid
  simp only [Nat.isValidChar] at limits
  by_cases one : n < 0x80
  · exact .inl ⟨n, one, rfl, encode_one one⟩
  by_cases two : n < 0x800
  · exact .inr (.inl ⟨n, by omega, two, rfl, encode_two (by omega) two⟩)
  by_cases three : n < 0x10000
  · exact .inr (.inr (.inl ⟨n, by omega, three, by omega, rfl, encode_three valid (by omega) three⟩))
  · exact .inr (.inr (.inr ⟨n, by omega, by omega, rfl, encode_four valid (by omega)⟩))

/-! ## What encodings begin with -/

theorem prefix_toNat {left right : List UInt8} (isPrefix : left <+: right) : left.map UInt8.toNat <+: right.map UInt8.toNat := isPrefix.map _

theorem Pending.Ok.refuses (ok : pending.Ok) (refused : ¬ pending.takes byte) : ¬ Starts (pending.seen ++ [byte]) := by
  rintro ⟨c, isPrefix⟩
  have numbers := prefix_toNat isPrefix
  refine refused ?_
  rcases encode_forms c with ⟨n, high, -, isForm⟩ | ⟨n, low, high, -, isForm⟩ | ⟨n, low, high, scalar, -, isForm⟩ | ⟨n, low, high, -, isForm⟩ <;>
    rw [isForm] at numbers <;> cases ok <;>
    simp only [List.cons_append, List.nil_append, List.map_cons, List.map_nil, List.cons_prefix_cons, List.prefix_nil, UInt8.toNat_ofNat',
      Nat.reducePow, reduceCtorEq, and_false, List.nil_prefix, and_true] at numbers
  all_goals
    simp only [Pending.takes, secondLow, secondHigh]
    try split_ifs
  all_goals omega

theorem lead_refuses (high : 0x80 ≤ byte.toNat) (noLead : lead byte = none) : ¬ Starts [byte] := by
  rintro ⟨c, isPrefix⟩
  have numbers := prefix_toNat isPrefix
  unfold lead at noLead
  dsimp only at noLead
  rcases encode_forms c with ⟨n, high, -, isForm⟩ | ⟨n, low, high, -, isForm⟩ | ⟨n, low, high, scalar, -, isForm⟩ | ⟨n, low, high, -, isForm⟩ <;>
    rw [isForm] at numbers <;>
    simp only [List.map_cons, List.map_nil, List.cons_prefix_cons, UInt8.toNat_ofNat', Nat.reducePow, List.nil_prefix, and_true] at numbers <;>
    split_ifs at noLead <;> omega

theorem Pending.Ok.unfinished (ok : pending.Ok) (c : Char) : ¬ String.utf8EncodeChar c <+: pending.seen := by
  intro isPrefix
  have numbers := prefix_toNat isPrefix
  rcases encode_forms c with ⟨n, high, -, isForm⟩ | ⟨n, low, high, -, isForm⟩ | ⟨n, low, high, scalar, -, isForm⟩ | ⟨n, low, high, -, isForm⟩ <;>
    rw [isForm] at numbers <;> cases ok <;>
    simp only [List.map_cons, List.map_nil, List.cons_prefix_cons, List.prefix_nil, UInt8.toNat_ofNat', Nat.reducePow, reduceCtorEq, and_false,
      List.nil_prefix, and_true] at numbers
  all_goals omega

theorem Pending.Ok.starts (ok : pending.Ok) : Starts pending.seen := by
  have general : ∀ left, ∀ pending : Pending, pending.Ok → pending.left = left → Starts pending.seen := by
    intro left
    induction left with
    | zero =>
      intro pending ok none
      have some := ok.bounds.2.2
      omega
    | succ left ih =>
      intro pending ok isLeft
      have room : pending.low ≤ pending.high ∧ pending.high < 256 := by
        cases ok <;> simp only [secondLow, secondHigh] <;> try split_ifs
        all_goals omega
      have takes : pending.takes (UInt8.ofNat pending.low) := by
        have same : (UInt8.ofNat pending.low).toNat = pending.low := by
          rw [UInt8.toNat_ofNat']
          omega
        exact ⟨same.ge, same.le.trans room.1⟩
      by_cases last : pending.left = 1
      · exact ⟨_, _, (ok.whole takes last).2.symm⟩
      · obtain ⟨c, isPrefix⟩ := ih (pending.next (UInt8.ofNat pending.low)) (ok.next takes last) (by simp only [Pending.next]; omega)
        exact ⟨c, (List.prefix_append _ _).trans isPrefix⟩
  exact general pending.left pending ok rfl

/-! ## The pieces are what they are said to be -/

/-- Every ill-formed piece is as long as it can be. -/
def AllMaximal : List Piece → Prop
  | [] => True
  | .char _ :: rest => AllMaximal rest
  | .ill piece :: rest => Maximal piece (rest.flatMap Piece.bytes) ∧ AllMaximal rest

def seenBytes (state : Option Pending) : List UInt8 := state.elim [] Pending.seen

theorem pieces_bytes {state : Option Pending} (ok : ∀ pending, state = some pending → pending.Ok) (bytes : List UInt8) :
    (pieces state bytes).flatMap Piece.bytes = seenBytes state ++ bytes := by
  induction bytes generalizing state with
  | nil =>
    cases state with
    | none => rfl
    | some pending => simp [pieces, Piece.bytes, seenBytes]
  | cons byte rest ih =>
    have starting : (fresh (fun state => pieces state rest) byte).flatMap Piece.bytes = byte :: rest := by
      rw [fresh]
      split_ifs with small
      · rw [List.flatMap_cons, Piece.bytes, encode_one small, ih (by simp), UInt8.ofNat_toNat]
        rfl
      · cases isLead : lead byte with
        | none =>
          dsimp only
          rw [List.flatMap_cons, ih (by simp)]
          rfl
        | some pending =>
          dsimp only
          rw [ih (fun other same => Option.some.inj same ▸ lead_ok isLead)]
          change pending.seen ++ rest = byte :: rest
          rw [lead_seen isLead]
          rfl
    cases state with
    | none => exact starting
    | some pending =>
      have isOk := ok pending rfl
      rw [pieces]
      split_ifs with takes last
      · rw [List.flatMap_cons, Piece.bytes, (isOk.whole takes last).2, ih (by simp)]
        simp [seenBytes]
      · rw [ih (fun other same => Option.some.inj same ▸ isOk.next takes last)]
        simp [seenBytes, Pending.next]
      · rw [List.flatMap_cons, starting]
        rfl

theorem Pending.Ok.maximal (ok : pending.Ok) {rest : List UInt8}
    (refused : ∀ byte, rest.head? = some byte → ¬ pending.takes byte) : Maximal pending.seen rest := by
  have nonempty : pending.seen ≠ [] := by cases ok <;> simp
  refine .inl ⟨nonempty, ok.starts, ?_, fun byte isFirst => ok.refuses (refused byte isFirst)⟩
  intro c isPrefix
  rcases le_or_gt (String.utf8EncodeChar c).length pending.seen.length with short | long
  · exact ok.unfinished c (List.prefix_of_prefix_length_le isPrefix (List.prefix_append _ _) short)
  · cases rest with
    | nil =>
      have length := isPrefix.length_le
      rw [List.append_nil] at length
      omega
    | cons byte rest =>
      refine ok.refuses (refused byte rfl) ⟨c, ?_⟩
      have longer : pending.seen ++ [byte] <+: pending.seen ++ byte :: rest := ⟨rest, by simp⟩
      exact List.prefix_of_prefix_length_le longer isPrefix (by rw [List.length_append]; exact long)

theorem pieces_maximal {state : Option Pending} (ok : ∀ pending, state = some pending → pending.Ok) (bytes : List UInt8) :
    AllMaximal (pieces state bytes) := by
  induction bytes generalizing state with
  | nil =>
    cases state with
    | none => trivial
    | some pending => exact ⟨(ok pending rfl).maximal (by simp), trivial⟩
  | cons byte rest ih =>
    have starting : AllMaximal (fresh (fun state => pieces state rest) byte) := by
      rw [fresh]
      split_ifs with small
      · exact ih (by simp)
      · cases isLead : lead byte with
        | none => exact ⟨.inr ⟨byte, rfl, lead_refuses (not_lt.mp small) isLead⟩, ih (by simp)⟩
        | some pending => exact ih (fun other same => Option.some.inj same ▸ lead_ok isLead)
    cases state with
    | none => exact starting
    | some pending =>
      have isOk := ok pending rfl
      rw [pieces]
      split_ifs with takes last
      · exact ih (by simp)
      · exact ih (fun other same => Option.some.inj same ▸ isOk.next takes last)
      · refine ⟨isOk.maximal fun other isFirst => ?_, starting⟩
        have whole := @pieces_bytes none (by simp) (byte :: rest)
        rw [pieces] at whole
        rw [whole] at isFirst
        exact Option.some.inj isFirst ▸ takes

theorem pieces_correct (bytes : List UInt8) : (pieces none bytes).flatMap Piece.bytes = bytes ∧ AllMaximal (pieces none bytes) :=
  ⟨pieces_bytes (by simp) bytes, pieces_maximal (by simp) bytes⟩

/-! ## Well-formed bytes -/

theorem encode_unique {one other : Char} (isPrefix : String.utf8EncodeChar one <+: String.utf8EncodeChar other) : one = other := by
  have numbers := prefix_toNat isPrefix
  have whole : ∀ n m : Nat, n = m → Char.ofNat n = Char.ofNat m := fun _ _ same => same ▸ rfl
  rcases encode_forms one with ⟨n, high, rfl, isForm⟩ | ⟨n, low, high, rfl, isForm⟩ | ⟨n, low, high, scalar, rfl, isForm⟩ |
      ⟨n, low, high, rfl, isForm⟩ <;>
    rcases encode_forms other with ⟨m, most, rfl, isOther⟩ | ⟨m, least, most, rfl, isOther⟩ | ⟨m, least, most, valid, rfl, isOther⟩ |
      ⟨m, least, most, rfl, isOther⟩ <;>
    rw [isForm, isOther] at numbers <;> refine whole n m ?_ <;>
    simp only [List.map_cons, List.map_nil, List.cons_prefix_cons, List.prefix_nil, UInt8.toNat_ofNat', Nat.reducePow, reduceCtorEq, and_false,
      List.nil_prefix, and_true] at numbers
  all_goals omega

theorem pieces_going (c : Char) (rest : List UInt8) (more : List UInt8) : ∀ pending : Pending, pending.Ok →
    String.utf8EncodeChar c = pending.seen ++ more → pieces (some pending) (more ++ rest) = .char c :: pieces none rest := by
  induction more with
  | nil =>
    intro pending ok whole
    exact absurd ⟨[], by rw [whole, List.append_nil, List.append_nil]⟩ (ok.unfinished c)
  | cons byte more ih =>
    intro pending ok whole
    have isPrefix : pending.seen ++ [byte] <+: String.utf8EncodeChar c := ⟨more, by rw [whole, List.append_assoc]; rfl⟩
    have takes : pending.takes byte := by
      by_contra refused
      exact ok.refuses refused ⟨c, isPrefix⟩
    rw [List.cons_append, pieces, if_pos takes]
    split_ifs with last
    · have encoded := (ok.whole takes last).2
      rw [← encoded] at isPrefix
      have same := encode_unique isPrefix
      have ended : more = [] := by
        rw [← same, encoded] at whole
        simpa using whole
      rw [same, ended]
      rfl
    · exact ih (pending.next byte) (ok.next takes last) (by rw [whole, Pending.next, List.append_assoc]; rfl)

theorem pieces_char (c : Char) (rest : List UInt8) : pieces none (String.utf8EncodeChar c ++ rest) = .char c :: pieces none rest := by
  cases encoded : String.utf8EncodeChar c with
  | nil =>
    rcases encode_forms c with ⟨n, -, -, isForm⟩ | ⟨n, -, -, -, isForm⟩ | ⟨n, -, -, -, -, isForm⟩ | ⟨n, -, -, -, isForm⟩ <;>
      rw [isForm] at encoded <;> cases encoded
  | cons byte more =>
    have starts : Starts [byte] := ⟨c, more, encoded.symm⟩
    rw [List.cons_append, pieces, fresh]
    split_ifs with small
    · have whole := encode_one small
      rw [UInt8.ofNat_toNat] at whole
      have same := @encode_unique (Char.ofNat byte.toNat) c ⟨more, by rw [whole, encoded]; rfl⟩
      have ended : more = [] := by
        rw [← same, whole] at encoded
        exact (List.cons.inj encoded).2.symm
      rw [same, ended]
      rfl
    · cases isLead : lead byte with
      | none => exact absurd starts (lead_refuses (not_lt.mp small) isLead)
      | some pending => exact pieces_going c rest more pending (lead_ok isLead) (by rw [encoded, lead_seen isLead]; rfl)

theorem pieces_encode (chars : List Char) (rest : List UInt8) :
    pieces none (chars.flatMap String.utf8EncodeChar ++ rest) = chars.map .char ++ pieces none rest := by
  induction chars with
  | nil => rfl
  | cons c chars ih => rw [List.flatMap_cons, List.append_assoc, pieces_char, ih, List.map_cons, List.cons_append]

theorem pieces_unfinished (c : Char) (more missing : List UInt8) (nonempty : missing ≠ []) : ∀ pending : Pending, pending.Ok →
    String.utf8EncodeChar c = pending.seen ++ more ++ missing → pieces (some pending) more = [.ill (pending.seen ++ more)] := by
  induction more with
  | nil =>
    intro pending ok whole
    rw [pieces, List.append_nil]
  | cons byte more ih =>
    intro pending ok whole
    have isPrefix : pending.seen ++ [byte] <+: String.utf8EncodeChar c := ⟨more ++ missing, by rw [whole]; simp⟩
    have takes : pending.takes byte := by
      by_contra refused
      exact ok.refuses refused ⟨c, isPrefix⟩
    rw [pieces, if_pos takes]
    split_ifs with last
    · have encoded := (ok.whole takes last).2
      rw [← encoded] at isPrefix
      have same := encode_unique isPrefix
      rw [← same, encoded] at whole
      have ended : more ++ missing = [] := by simpa using whole
      exact absurd (List.append_eq_nil_iff.mp ended).2 nonempty
    · rw [ih (pending.next byte) (ok.next takes last) (by rw [whole, Pending.next]; simp), Pending.next]
      simp

theorem pieces_part {c : Char} {part : List UInt8} (starts : part <+: String.utf8EncodeChar c) (unfinished : part ≠ String.utf8EncodeChar c)
    (nonempty : part ≠ []) : pieces none part = [.ill part] := by
  obtain ⟨missing, whole⟩ := starts
  have more : missing ≠ [] := by
    rintro rfl
    exact unfinished (by simpa using whole)
  cases part with
  | nil => exact absurd rfl nonempty
  | cons byte part =>
    have begins : Starts [byte] := ⟨c, part ++ missing, by simpa using whole⟩
    rw [pieces, fresh]
    split_ifs with small
    · have alone := encode_one small
      rw [UInt8.ofNat_toNat] at alone
      have same := @encode_unique (Char.ofNat byte.toNat) c ⟨part ++ missing, by rw [alone, ← whole]; rfl⟩
      rw [← same, alone] at whole
      have ended : part ++ missing = [] := by simpa using whole
      exact absurd (List.append_eq_nil_iff.mp ended).2 more
    · cases isLead : lead byte with
      | none => exact absurd begins (lead_refuses (not_lt.mp small) isLead)
      | some pending =>
        have seen := lead_seen isLead
        exact (pieces_unfinished c part missing more pending (lead_ok isLead) (by rw [seen, ← whole]; simp)).trans (by rw [seen]; rfl)

end TaskExplorer.Utf8
