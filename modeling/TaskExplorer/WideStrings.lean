import TaskExplorer.HelperCommand
import TaskExplorer.Utf8

/-!
# Wide strings as UTF-8

`wchar_t` has four bytes or two. The encoders write every unit by itself and have no
encoding of four bytes; the decoder takes whatever number of bytes a first byte announces.
-/

namespace TaskExplorer.WideStrings
open Codec Utf8

/-! ## The functions -/

/-- `sizeof(wchar_t)`. -/
inductive WCharSize where
  | two
  | four
deriving DecidableEq, Repr

/-- What one unit is written as. Where `wchar_t` has four bytes it is signed. -/
def encode_unit (w : UInt32) : Bytes :=
  if w ≤ 0x7f ∨ 0x80000000 ≤ w then [w.toUInt8]
  else if w ≤ 0x7ff then [((0xc0 : UInt32) ||| (w >>> 6 &&& 0x1f)).toUInt8, ((0x80 : UInt32) ||| (w &&& 0x3f)).toUInt8]
  else if w ≤ 0xffff then
    [((0xe0 : UInt32) ||| (w >>> 12 &&& 0x0f)).toUInt8, ((0x80 : UInt32) ||| (w >>> 6 &&& 0x3f)).toUInt8, ((0x80 : UInt32) ||| (w &&& 0x3f)).toUInt8]
  else [63]

def wstr_to_utf8 (src : List UInt32) : Bytes := src.foldl (fun dest w => dest ++ encode_unit w) []

/-- With no length the string ends at its first NUL. -/
def wchar_to_utf8 (str : List UInt32) (len : Option Nat) : Bytes :=
  let len := len.getD (str.takeWhile (· ≠ 0)).length
  (List.range len).foldl (fun str8 i => str8 ++ encode_unit (str.getD i 0)) []

/-- What a `wchar_t` keeps of a number. -/
def keep : WCharSize → UInt32 → UInt32
  | .two, w => w &&& 0xFFFF
  | .four, w => w

/-- The loop of `Utf8ToWStr`, with its `w` and `bytes`. -/
def utf8_to_wstr (size : WCharSize) (w : UInt32) (bytes : Nat) : Bytes → List UInt32
  | [] => if bytes ≠ 0 then [0xFFFD] else []
  | c :: rest =>
    if c ≤ 0x7f then (if bytes ≠ 0 then [0xFFFD] else []) ++ c.toUInt32 :: utf8_to_wstr size w 0 rest
    else if c ≤ 0xbf then
      let next := keep size (w <<< 6 ||| (c &&& 0x3f).toUInt32)
      if bytes = 0 then 0xFFFD :: utf8_to_wstr size w 0 rest
      else if bytes = 1 then next :: utf8_to_wstr size next 0 rest
      else utf8_to_wstr size next (bytes - 1) rest
    else if c ≤ 0xdf then utf8_to_wstr size (c &&& 0x1f).toUInt32 1 rest
    else if c ≤ 0xef then utf8_to_wstr size (c &&& 0x0f).toUInt32 2 rest
    else if c ≤ 0xf7 then utf8_to_wstr size (c &&& 0x07).toUInt32 3 rest
    else 0xFFFD :: utf8_to_wstr size w 0 rest

/-! ## What is expected of them -/

/-- The units that hold a character. -/
def units_of (size : WCharSize) (c : Char) : List UInt32 :=
  if size = .four ∨ c.val < 0x10000 then [c.val]
  else [0xD800 + (c.val - 0x10000) / 0x400, 0xDC00 + (c.val - 0x10000) % 0x400]

/-- Both encoders give the encoding of the characters of a string, and it is read as the string again. -/
def EncodeCorrect (size : WCharSize) (chars : List Char) : Prop :=
  let string := chars.flatMap (units_of size)
  wchar_to_utf8 string (some string.length) = wstr_to_utf8 string ∧ (0 ∉ string → wchar_to_utf8 string none = wstr_to_utf8 string) ∧
    wstr_to_utf8 string = chars.flatMap String.utf8EncodeChar ∧ utf8_to_wstr size 0 0 (wstr_to_utf8 string) = string

def units (size : WCharSize) : Piece → List UInt32
  | .char c => units_of size c
  | .ill _ => [0xFFFD]

/-- Every encoding is read as its character and every ill-formed piece as one replacement character. -/
def DecodeCorrect (size : WCharSize) (bytes : Bytes) : Prop := utf8_to_wstr size 0 0 bytes = (pieces none bytes).flatMap (units size)

/-- There is nothing more, or an ASCII character. -/
def Quiet : List Piece → Prop
  | [] => True
  | .char c :: _ => c.val.toNat < 0x80
  | .ill _ :: _ => False

/-- Every ill-formed piece that begins with one of the bytes C0 to F7 is quiet behind, and where `wchar_t` has two bytes no character is
above U+FFFF. -/
def Calm (size : WCharSize) : List Piece → Prop
  | [] => True
  | .char c :: rest => (size = .two → c.val.toNat < 0x10000) ∧ Calm size rest
  | .ill piece :: rest => ((∃ byte, piece.head? = some byte ∧ 0xC0 ≤ byte.toNat ∧ byte.toNat ≤ 0xF7) → Quiet rest) ∧ Calm size rest

/-! ## One byte -/

section
variable {size : WCharSize} {c : UInt8}

theorem mask_toNat (c : UInt8) (bits : Nat) (mask : UInt8) (isMask : mask.toNat = 2 ^ bits - 1) : (c &&& mask).toUInt32.toNat = c.toNat % 2 ^ bits := by
  rw [UInt8.toNat_toUInt32, UInt8.toNat_and, isMask, Nat.and_two_pow_sub_one_eq_mod]

theorem read_ascii (low : c.toNat < 0x80) (w : UInt32) (bytes : Nat) (rest : Bytes) :
    utf8_to_wstr size w bytes (c :: rest) = (if bytes ≠ 0 then [0xFFFD] else []) ++ c.toUInt32 :: utf8_to_wstr size w 0 rest := by
  have small : c ≤ 0x7f := UInt8.le_iff_toNat_le.mpr (Nat.le_of_lt_succ low)
  rw [utf8_to_wstr, if_pos small]

theorem read_tail (low : 0x80 ≤ c.toNat) (high : c.toNat ≤ 0xBF) (w : UInt32) (bytes : Nat) (rest : Bytes) :
    utf8_to_wstr size w bytes (c :: rest) =
      if bytes = 0 then 0xFFFD :: utf8_to_wstr size w 0 rest
      else if bytes = 1 then
        keep size (w <<< 6 ||| (c &&& 0x3f).toUInt32) :: utf8_to_wstr size (keep size (w <<< 6 ||| (c &&& 0x3f).toUInt32)) 0 rest
      else utf8_to_wstr size (keep size (w <<< 6 ||| (c &&& 0x3f).toUInt32)) (bytes - 1) rest := by
  have large : ¬ c ≤ 0x7f := fun small => absurd (UInt8.le_iff_toNat_le.mp small) (not_le.mpr low)
  have small : c ≤ 0xbf := UInt8.le_iff_toNat_le.mpr high
  rw [utf8_to_wstr, if_neg large, if_pos small]

theorem read_lead (low : 0xC0 ≤ c.toNat) (high : c.toNat ≤ 0xF7) :
    ∃ v m, 1 ≤ m ∧ (∀ pending, lead c = some pending → m = pending.left ∧ v.toNat = pending.value) ∧
      ∀ w bytes rest, utf8_to_wstr size w bytes (c :: rest) = utf8_to_wstr size v m rest := by
  have notFirst : ¬ c ≤ 0x7f := fun small => absurd (UInt8.le_iff_toNat_le.mp small) (not_le.mpr (lt_of_lt_of_le (by decide) low))
  have notTail : ¬ c ≤ 0xbf := fun small => absurd (UInt8.le_iff_toNat_le.mp small) (not_le.mpr (lt_of_lt_of_le (by decide) low))
  by_cases two : c ≤ 0xdf
  · refine ⟨(c &&& 0x1f).toUInt32, 1, le_rfl, fun pending isLead => ?_, fun w bytes rest => ?_⟩
    · have value := mask_toNat c 5 0x1f rfl
      have cases := lead_spec isLead
      have limit := UInt8.le_iff_toNat_le.mp two
      simp only [UInt8.reduceToNat, Nat.reducePow] at limit value
      omega
    · rw [utf8_to_wstr, if_neg notFirst, if_neg notTail, if_pos two]
  by_cases three : c ≤ 0xef
  · refine ⟨(c &&& 0x0f).toUInt32, 2, by decide, fun pending isLead => ?_, fun w bytes rest => ?_⟩
    · have value := mask_toNat c 4 0x0f rfl
      have cases := lead_spec isLead
      have limit := UInt8.le_iff_toNat_le.mp three
      have above : ¬ c.toNat ≤ 0xdf := fun small => two (UInt8.le_iff_toNat_le.mpr small)
      simp only [UInt8.reduceToNat, Nat.reducePow] at limit value
      omega
    · rw [utf8_to_wstr, if_neg notFirst, if_neg notTail, if_neg two, if_pos three]
  · have four : c ≤ 0xf7 := UInt8.le_iff_toNat_le.mpr high
    refine ⟨(c &&& 0x07).toUInt32, 3, by decide, fun pending isLead => ?_, fun w bytes rest => ?_⟩
    · have value := mask_toNat c 3 0x07 rfl
      have cases := lead_spec isLead
      have above : ¬ c.toNat ≤ 0xef := fun small => three (UInt8.le_iff_toNat_le.mpr small)
      simp only [Nat.reducePow] at value
      omega
    · rw [utf8_to_wstr, if_neg notFirst, if_neg notTail, if_neg two, if_neg three, if_pos four]

theorem read_other (low : 0xF8 ≤ c.toNat) (w : UInt32) (bytes : Nat) (rest : Bytes) :
    utf8_to_wstr size w bytes (c :: rest) = 0xFFFD :: utf8_to_wstr size w 0 rest := by
  have larger : ∀ limit : UInt8, limit.toNat < 0xF8 → ¬ c ≤ limit := fun limit below small =>
    absurd (UInt8.le_iff_toNat_le.mp small) (not_le.mpr (below.trans_le low))
  rw [utf8_to_wstr, if_neg (larger _ (by decide)), if_neg (larger _ (by decide)), if_neg (larger _ (by decide)), if_neg (larger _ (by decide)),
    if_neg (larger _ (by decide))]

end

/-! ## The decoder beside the pieces -/

section
variable {size : WCharSize} {byte : UInt8} {rest : Bytes}

theorem pieces_ascii (low : byte.toNat < 0x80) : pieces none (byte :: rest) = .char (Char.ofNat byte.toNat) :: pieces none rest := by
  rw [pieces, fresh, if_pos low]

variable {pending : Pending}

theorem pieces_lead (high : 0x80 ≤ byte.toNat) (isLead : lead byte = some pending) :
    pieces none (byte :: rest) = pieces (some pending) rest := by
  rw [pieces, fresh, if_neg (not_lt.mpr high), isLead]

theorem pieces_ill (high : 0x80 ≤ byte.toNat) (noLead : lead byte = none) : pieces none (byte :: rest) = .ill [byte] :: pieces none rest := by
  rw [pieces, fresh, if_neg (not_lt.mpr high), noLead]

theorem units_positive (size : WCharSize) (piece : Piece) : 1 ≤ (units size piece).length := by
  cases piece with
  | ill bytes => exact le_rfl
  | char c =>
    rw [units, units_of]
    split_ifs <;> simp

/-- How many units the pieces are read as. -/
def total (size : WCharSize) (state : Option Pending) (bytes : Bytes) : Nat := ((pieces state bytes).flatMap (units size)).length

theorem total_cons {state other : Option Pending} {piece : Piece} {more : Bytes} (isCons : pieces state rest = piece :: pieces other more) :
    total size state rest = (units size piece).length + total size other more := by
  rw [total, isCons, List.flatMap_cons, List.length_append, total]

theorem total_refused (refused : ¬ pending.takes byte) :
    total size (some pending) (byte :: rest) = 1 + total size none (byte :: rest) := by
  have isCons : pieces (some pending) (byte :: rest) = .ill pending.seen :: pieces none (byte :: rest) := by
    simp only [pieces, if_neg refused]
  exact total_cons isCons

/-- The decoder gives no more units than there should be, and one that is left with the rest of an encoding at most one more. -/
theorem read_length (size : WCharSize) (bytes : Bytes) :
    (∀ w left, (utf8_to_wstr size w left bytes).length ≤ total size none bytes + (if left = 0 then 0 else 1)) ∧
    (∀ w left byte rest, bytes = byte :: rest → 0x80 ≤ byte.toNat → (utf8_to_wstr size w left bytes).length ≤ total size none bytes) ∧
    ∀ w (pending : Pending), pending.Ok → (utf8_to_wstr size w pending.left bytes).length ≤ total size (some pending) bytes := by
  induction bytes with
  | nil =>
    refine ⟨fun w left => ?_, fun _ _ _ _ impossible => (by cases impossible), fun w pending ok => ?_⟩
    · rw [utf8_to_wstr]
      split_ifs <;> simp_all
    · rw [utf8_to_wstr]
      split_ifs <;> simp [total, pieces, units]
  | cons byte rest ih =>
    obtain ⟨anywhere, -, going⟩ := ih
    have between : ∀ w left, (utf8_to_wstr size w left rest).length ≤ total size none rest + 1 := fun w left =>
      (anywhere w left).trans (Nat.add_le_add_left (by split_ifs <;> decide) _)
    have fresh : ∀ w, (utf8_to_wstr size w 0 rest).length ≤ total size none rest := fun w => anywhere w 0
    have high : 0x80 ≤ byte.toNat → ∀ w left, (utf8_to_wstr size w left (byte :: rest)).length ≤ total size none (byte :: rest) := by
      intro high w left
      have ofIll : lead byte = none → total size none (byte :: rest) = 1 + total size none rest := fun noLead => total_cons (pieces_ill high noLead)
      by_cases isTail : byte.toNat ≤ 0xBF
      · have noLead : lead byte = none := by
          rw [lead, if_pos (by omega)]
        rw [read_tail high isTail, ofIll noLead]
        split_ifs with none one
        · have least := fresh w
          rw [List.length_cons]
          omega
        · have least := fresh (keep size (w <<< 6 ||| (byte &&& 0x3f).toUInt32))
          rw [List.length_cons]
          omega
        · have least := between (keep size (w <<< 6 ||| (byte &&& 0x3f).toUInt32)) (left - 1)
          omega
      by_cases isFirst : byte.toNat ≤ 0xF7
      · obtain ⟨v, m, -, isLead, reads⟩ := @read_lead size byte (by omega) isFirst
        rw [reads]
        cases leads : lead byte with
        | none =>
          have least := between v m
          rw [ofIll leads]
          omega
        | some pending =>
          have least := going v pending (lead_ok leads)
          rwa [(isLead pending leads).1, total, pieces_lead high leads]
      · have noLead : lead byte = none := by
          unfold lead
          dsimp only
          rw [if_neg (by omega), if_neg (by omega), if_neg (by omega), if_neg (by omega)]
        have least := fresh w
        rw [read_other (by omega), ofIll noLead, List.length_cons]
        omega
    have all : ∀ w left, (utf8_to_wstr size w left (byte :: rest)).length ≤ total size none (byte :: rest) + (if left = 0 then 0 else 1) := by
      intro w left
      by_cases low : byte.toNat < 0x80
      · have least := fresh w
        have positive := units_positive size (.char (Char.ofNat byte.toNat))
        rw [read_ascii low, total_cons (pieces_ascii low)]
        by_cases none : left = 0
        · simp only [none, ne_eq, not_true, if_false, if_true, List.nil_append, List.length_cons]
          omega
        · simp only [none, ne_eq, not_false_eq_true, if_false, if_true, List.cons_append, List.nil_append, List.length_cons]
          omega
      · exact (high (not_lt.mp low) w left).trans (Nat.le_add_right _ _)
    refine ⟨all, ?_, ?_⟩
    · rintro w left _ _ same isHigh
      cases same
      exact high isHigh w left
    · intro w pending ok
      by_cases takes : pending.takes byte
      · obtain ⟨above, below, positive⟩ := ok.bounds
        rw [read_tail (above.trans takes.1) (takes.2.trans below), if_neg (by omega)]
        by_cases last : pending.left = 1
        · have isCons : pieces (some pending) (byte :: rest) = .char (Char.ofNat (pending.next byte).value) :: pieces none rest := by
            rw [pieces, if_pos takes, if_pos last]
          have least := fresh (keep size (w <<< 6 ||| (byte &&& 0x3f).toUInt32))
          have some := units_positive size (.char (Char.ofNat (pending.next byte).value))
          rw [if_pos last, List.length_cons, total_cons isCons]
          omega
        · have further := going (keep size (w <<< 6 ||| (byte &&& 0x3f).toUInt32)) (pending.next byte) (ok.next takes last)
          rw [if_neg last, total, pieces, if_pos takes, if_neg last]
          exact further
      · have bound := all w pending.left
        rw [total_refused takes]
        split_ifs at bound <;> omega

theorem going_loud (ok : pending.Ok) (bytes : Bytes) : ¬ Quiet (pieces (some pending) bytes) := by
  induction bytes generalizing pending with
  | nil => simp [pieces, Quiet]
  | cons byte rest ih =>
    rw [pieces]
    split_ifs with takes last
    · obtain ⟨valid, -⟩ := ok.whole takes last
      obtain ⟨above, -, -⟩ := ok.bounds
      have large : 0x80 ≤ (pending.next byte).value := by
        rw [Pending.next]
        cases ok with
        | two => dsimp only; omega
        | threeTwo => dsimp only; omega
        | fourThree => dsimp only; omega
        | three => cases last
        | four => cases last
        | fourTwo => cases last
      rw [Quiet, toNat_ofNat valid]
      omega
    · exact ih (ok.next takes last)
    · simp [Quiet]

theorem quiet_iff : Quiet (pieces none (byte :: rest)) ↔ byte.toNat < 0x80 := by
  by_cases low : byte.toNat < 0x80
  · rw [pieces_ascii low, Quiet, toNat_ofNat (.inl (by omega))]
  · refine iff_of_false ?_ low
    cases leads : lead byte with
    | none => simp [pieces_ill (not_lt.mp low) leads, Quiet]
    | some pending =>
      rw [pieces_lead (not_lt.mp low) leads]
      exact going_loud (lead_ok leads) rest

theorem push_value (ok : pending.Ok) (takes : pending.takes byte) {w : UInt32} (isValue : w.toNat = pending.value)
    (fits : size = .two → (pending.next byte).value < 0x10000) :
    (keep size (w <<< 6 ||| (byte &&& 0x3f).toUInt32)).toNat = (pending.next byte).value := by
  obtain ⟨above, below, -⟩ := ok.bounds
  have small : pending.value < 0x4400 := by cases ok <;> dsimp only <;> omega
  have mask := mask_toNat byte 6 0x3f rfl
  have low : byte.toNat % 2 ^ 6 = byte.toNat - 0x80 := by
    have first := above.trans takes.1
    have second := takes.2.trans below
    simp only [Nat.reducePow]
    omega
  have pushed : (w <<< 6 ||| (byte &&& 0x3f).toUInt32).toNat = (pending.next byte).value := by
    have shifted : (w <<< 6).toNat = w.toNat <<< 6 := by
      rw [UInt32.toNat_shiftLeft, UInt32.toNat_ofNat_of_lt (by decide), Nat.shiftLeft_eq, isValue]
      refine Nat.mod_eq_of_lt ?_
      simp only [Nat.reducePow, Nat.reduceMod]
      omega
    rw [UInt32.toNat_or, shifted, mask, ← Nat.shiftLeft_add_eq_or_of_lt (Nat.mod_lt _ (by decide)), Nat.shiftLeft_eq, isValue, low]
    rfl
  cases size with
  | four => exact pushed
  | two =>
    rw [keep, UInt32.toNat_and, pushed]
    exact (Nat.and_two_pow_sub_one_eq_mod _ 16).trans (Nat.mod_eq_of_lt (fits rfl))

theorem units_one {c : Char} (fits : size = .two → c.val.toNat < 0x10000) : units size (.char c) = [c.val] := by
  rw [units, units_of, if_pos]
  cases size with
  | four => exact .inl rfl
  | two => exact .inr (UInt32.lt_iff_toNat_lt.mpr (fits rfl))

theorem units_two {c : Char} (large : ¬ (size = .two → c.val.toNat < 0x10000)) : (units size (.char c)).length = 2 := by
  obtain ⟨rfl, above⟩ := Classical.not_imp.mp large
  rw [units, units_of, if_neg]
  · rfl
  · rintro (impossible | small)
    · cases impossible
    · exact above (UInt32.lt_iff_toNat_lt.mp small)

theorem ascii_unit (low : byte.toNat < 0x80) : units size (.char (Char.ofNat byte.toNat)) = [byte.toUInt32] := by
  have value : (Char.ofNat byte.toNat).val.toNat = byte.toNat := toNat_ofNat (.inl (by omega))
  rw [units_one (fun _ => by omega)]
  exact congrArg (fun w => [w]) (UInt32.toNat.inj (value.trans (UInt8.toNat_toUInt32 byte).symm))

theorem calm_ascii (low : byte.toNat < 0x80) : Calm size (pieces none (byte :: rest)) ↔ Calm size (pieces none rest) := by
  rw [pieces_ascii low, Calm, toNat_ofNat (.inl (by omega))]
  exact and_iff_right fun _ => by omega

/-- The decoder does what it should exactly if the pieces are calm. One that is left with the rest of an encoding and should have given a
replacement character for it needs what follows to be quiet. -/
theorem read_iff (size : WCharSize) (bytes : Bytes) :
    (∀ w, utf8_to_wstr size w 0 bytes = (pieces none bytes).flatMap (units size) ↔ Calm size (pieces none bytes)) ∧
    (∀ w left, left ≠ 0 → (utf8_to_wstr size w left bytes = 0xFFFD :: (pieces none bytes).flatMap (units size) ↔
      Quiet (pieces none bytes) ∧ Calm size (pieces none bytes))) ∧
    ∀ w (pending : Pending), pending.Ok → w.toNat = pending.value →
      (utf8_to_wstr size w pending.left bytes = (pieces (some pending) bytes).flatMap (units size) ↔ Calm size (pieces (some pending) bytes)) := by
  induction bytes with
  | nil =>
    refine ⟨fun w => iff_of_true rfl trivial, fun w left more => ?_, fun w pending ok _ => ?_⟩
    · rw [utf8_to_wstr, if_pos more]
      exact iff_of_true rfl ⟨trivial, trivial⟩
    · rw [utf8_to_wstr, if_pos (by have := ok.bounds; omega)]
      exact iff_of_true rfl ⟨fun _ => trivial, trivial⟩
  | cons byte rest ih =>
    obtain ⟨fresh, unfinished, going⟩ := ih
    have ascii : byte.toNat < 0x80 → ∀ w, (byte.toUInt32 :: utf8_to_wstr size w 0 rest = (pieces none (byte :: rest)).flatMap (units size) ↔
        Calm size (pieces none (byte :: rest))) := by
      intro low w
      rw [calm_ascii low, pieces_ascii low, List.flatMap_cons, ascii_unit low, List.cons_append, List.nil_append, List.cons_eq_cons]
      exact (and_iff_right rfl).trans (fresh w)
    have left : ∀ w left, left ≠ 0 → (utf8_to_wstr size w left (byte :: rest) = 0xFFFD :: (pieces none (byte :: rest)).flatMap (units size) ↔
        Quiet (pieces none (byte :: rest)) ∧ Calm size (pieces none (byte :: rest))) := by
      intro w left more
      by_cases low : byte.toNat < 0x80
      · rw [read_ascii low, if_pos more, List.cons_append, List.nil_append, List.cons_eq_cons, quiet_iff]
        exact and_congr (iff_of_true rfl low) (ascii low w)
      · refine iff_of_false (fun same => ?_) (fun calm => low (quiet_iff.mp calm.1))
        have short := (read_length size (byte :: rest)).2.1 w left byte rest rfl (not_lt.mp low)
        rw [same, List.length_cons] at short
        exact Nat.not_succ_le_self _ short
    refine ⟨fun w => ?_, left, fun w pending ok isValue => ?_⟩
    · by_cases low : byte.toNat < 0x80
      · rw [read_ascii low, if_neg (not_not.mpr rfl), List.nil_append]
        exact ascii low w
      have high := not_lt.mp low
      cases leads : lead byte with
      | some pending =>
        have first := lead_spec leads
        obtain ⟨v, m, -, isLead, reads⟩ := @read_lead size byte (by omega) (by omega)
        rw [reads, pieces_lead high leads, (isLead pending leads).1]
        exact going v pending (lead_ok leads) (isLead pending leads).2
      | none =>
        rw [pieces_ill high leads, List.flatMap_cons, Calm]
        change utf8_to_wstr size w 0 (byte :: rest) = 0xFFFD :: _ ↔ _
        by_cases isFirst : 0xC0 ≤ byte.toNat ∧ byte.toNat ≤ 0xF7
        · obtain ⟨v, m, positive, -, reads⟩ := @read_lead size byte isFirst.1 isFirst.2
          rw [reads]
          refine (unfinished v m (by omega)).trans (and_congr_left fun _ => ?_)
          exact ⟨fun quiet _ => quiet, fun quiet => quiet ⟨byte, rfl, isFirst⟩⟩
        · have alone : utf8_to_wstr size w 0 (byte :: rest) = 0xFFFD :: utf8_to_wstr size w 0 rest := by
            by_cases isTail : byte.toNat ≤ 0xBF
            · rw [read_tail high isTail, if_pos rfl]
            · exact read_other (by omega) w 0 rest
          rw [alone, List.cons_eq_cons]
          refine and_congr (iff_of_true rfl ?_) (fresh w)
          rintro ⟨other, same, bounds⟩
          cases same
          exact absurd bounds isFirst
    · obtain ⟨above, below, positive⟩ := ok.bounds
      by_cases takes : pending.takes byte
      · rw [read_tail (above.trans takes.1) (takes.2.trans below), if_neg (by omega), pieces, if_pos takes]
        by_cases last : pending.left = 1
        · rw [if_pos last, if_pos last, List.flatMap_cons, Calm, toNat_ofNat (ok.whole takes last).1]
          have isChar := toNat_ofNat (ok.whole takes last).1
          by_cases fits : size = .two → (pending.next byte).value < 0x10000
          · have same := UInt32.toNat.inj ((push_value ok takes isValue fits).trans isChar.symm)
            rw [units_one (fun isTwo => isChar.le.trans_lt (fits isTwo)), same, List.cons_append, List.nil_append, List.cons_eq_cons]
            exact and_congr (iff_of_true rfl fits) (fresh _)
          · refine iff_of_false (fun same => ?_) (fun calm => fits calm.1)
            have large : ¬ (size = .two → (Char.ofNat (pending.next byte).value).val.toNat < 0x10000) := by rwa [isChar]
            have lengths := congrArg List.length same
            have short := (read_length size rest).1 (keep size (w <<< 6 ||| (byte &&& 0x3f).toUInt32)) 0
            rw [List.length_cons, List.length_append, units_two large] at lengths
            rw [total, if_pos rfl] at short
            omega
        · rw [if_neg last, if_neg last]
          refine going _ (pending.next byte) (ok.next takes last) (push_value ok takes isValue fun _ => ?_)
          have small := (ok.next takes last)
          generalize pending.next byte = further at small
          cases small <;> dsimp only <;> omega
      · have isFirst : ∃ first, pending.seen.head? = some first ∧ 0xC0 ≤ first.toNat ∧ first.toNat ≤ 0xF7 := by
          cases ok <;> refine ⟨_, rfl, ?_⟩ <;> rw [UInt8.toNat_ofNat'] <;> omega
        have split : pieces (some pending) (byte :: rest) = .ill pending.seen :: pieces none (byte :: rest) := by
          simp only [pieces, if_neg takes]
        rw [split, List.flatMap_cons, Calm]
        refine (left w pending.left (by omega)).trans (and_congr_left fun _ => ?_)
        exact ⟨fun quiet _ => quiet, fun quiet => quiet isFirst⟩

end

/-! ## The encoders -/

theorem wstr_eq (src : List UInt32) : wstr_to_utf8 src = src.flatMap encode_unit := by
  have general : ∀ dest, src.foldl (fun dest w => dest ++ encode_unit w) dest = dest ++ src.flatMap encode_unit := by
    induction src with
    | nil => exact fun dest => (List.append_nil dest).symm
    | cons w src ih => exact fun dest => by rw [List.foldl_cons, ih, List.flatMap_cons, List.append_assoc]
  exact general []

theorem wchar_eq (str : List UInt32) (len : Option Nat) :
    wchar_to_utf8 str len = wstr_to_utf8 ((List.range (len.getD (str.takeWhile (· ≠ 0)).length)).map fun i => str.getD i 0) := by
  rw [wchar_to_utf8, wstr_to_utf8, List.foldl_map]

theorem range_all (str : List UInt32) : ((List.range str.length).map fun i => str.getD i 0) = str :=
  List.ext_getElem (by simp) fun i inside inStr => by simp [List.getElem?_eq_getElem inStr]

theorem encoders_agree (str : List UInt32) :
    wchar_to_utf8 str (some str.length) = wstr_to_utf8 str ∧ (0 ∉ str → wchar_to_utf8 str none = wstr_to_utf8 str) := by
  refine ⟨?_, fun noNul => ?_⟩
  · rw [wchar_eq, Option.getD_some, range_all]
  · have whole : str.takeWhile (· ≠ 0) = str := List.takeWhile_eq_self_iff.mpr fun w isIn => decide_eq_true fun same => noNul (same ▸ isIn)
    rw [wchar_eq, Option.getD_none, whole, range_all]

section
variable {w : UInt32}

theorem encode_field {bits field mask : UInt32} {top width part : Nat} (isBits : bits.toNat = 2 ^ width * top) (isMask : mask.toNat = 2 ^ width - 1)
    (isPart : field.toNat = part) : (bits ||| (field &&& mask)).toUInt8 = UInt8.ofNat (2 ^ width * top + part % 2 ^ width) := by
  refine UInt8.toNat.inj ?_
  rw [UInt32.toNat_toUInt8, UInt8.toNat_ofNat', UInt32.toNat_or, UInt32.toNat_and, isBits, isMask, isPart, Nat.and_two_pow_sub_one_eq_mod,
    ← Nat.two_pow_add_eq_or_of_lt (Nat.mod_lt _ (Nat.two_pow_pos width))]

theorem shifted_toNat (w : UInt32) : (w >>> 6).toNat = w.toNat / 64 ∧ (w >>> 12).toNat = w.toNat / 4096 := by
  constructor <;> rw [UInt32.toNat_shiftRight, Nat.shiftRight_eq_div_pow] <;> rfl

theorem encode_small {c : Char} (small : c.val.toNat < 0x10000) : encode_unit c.val = String.utf8EncodeChar c := by
  have isValue : Char.ofNat c.val.toNat = c := c.ofNat_toNat
  have valid : c.val.toNat.isValidChar := c.valid
  obtain ⟨six, twelve⟩ := shifted_toNat c.val
  have positive : ¬ 0x80000000 ≤ c.val := fun negative =>
    absurd (UInt32.le_iff_toNat_le.mp negative) (not_le.mpr (small.trans (by decide)))
  have third := @encode_field 0x80 c.val 0x3f 2 6 c.val.toNat rfl rfl rfl
  have second := @encode_field 0x80 (c.val >>> 6) 0x3f 2 6 (c.val.toNat / 64) rfl rfl six
  simp only [Nat.reducePow, Nat.reduceMul] at third second
  rw [encode_unit]
  by_cases one : c.val ≤ 0x7f
  · have low : c.val.toNat < 0x80 := Nat.lt_succ_of_le (UInt32.le_iff_toNat_le.mp one)
    rw [if_pos (.inl one), ← isValue, encode_one low, isValue]
    exact congrArg (fun byte => [byte]) (UInt8.toNat.inj (by rw [UInt32.toNat_toUInt8, UInt8.toNat_ofNat']))
  have aboveOne : ¬ c.val.toNat ≤ 0x7f := fun low => one (UInt32.le_iff_toNat_le.mpr low)
  rw [if_neg (not_or.mpr ⟨one, positive⟩)]
  by_cases two : c.val ≤ 0x7ff
  · have low : c.val.toNat ≤ 0x7ff := UInt32.le_iff_toNat_le.mp two
    have encoded := @encode_two c.val.toNat (by omega) (by omega)
    have first := @encode_field 0xc0 (c.val >>> 6) 0x1f 6 5 (c.val.toNat / 64) rfl rfl six
    have whole : c.val.toNat / 64 % 32 = c.val.toNat / 64 := Nat.mod_eq_of_lt (by omega)
    simp only [Nat.reducePow, Nat.reduceMul, whole] at first
    rw [if_pos two, first, third, ← encoded, isValue]
  · have above : ¬ c.val.toNat ≤ 0x7ff := fun low => two (UInt32.le_iff_toNat_le.mpr low)
    have isSmall : c.val ≤ 0xffff := UInt32.le_iff_toNat_le.mpr (by simp only [UInt32.reduceToNat]; omega)
    have encoded := encode_three valid (by omega) small
    have first := @encode_field 0xe0 (c.val >>> 12) 0x0f 14 4 (c.val.toNat / 4096) rfl rfl twelve
    have whole : c.val.toNat / 4096 % 16 = c.val.toNat / 4096 := Nat.mod_eq_of_lt (by omega)
    simp only [Nat.reducePow, Nat.reduceMul, whole] at first
    rw [if_neg two, if_pos isSmall, first, second, third, ← encoded, isValue]

theorem encode_large (above : 0x10000 ≤ w.toNat) (below : w.toNat < 0x80000000) : encode_unit w = [63] := by
  have larger : ∀ limit : UInt32, limit.toNat < 0x10000 → ¬ w ≤ limit := fun limit isSmall small =>
    absurd (UInt32.le_iff_toNat_le.mp small) (not_le.mpr (isSmall.trans_le above))
  have positive : ¬ 0x80000000 ≤ w := fun negative => absurd (UInt32.le_iff_toNat_le.mp negative) (not_le.mpr below)
  rw [encode_unit, if_neg (not_or.mpr ⟨larger _ (by decide), positive⟩), if_neg (larger _ (by decide)), if_neg (larger _ (by decide))]

theorem encode_surrogate (above : 0xD800 ≤ w.toNat) (below : w.toNat < 0xE000) : (encode_unit w).length = 3 := by
  have larger : ∀ limit : UInt32, limit.toNat < 0xD800 → ¬ w ≤ limit := fun limit isSmall small =>
    absurd (UInt32.le_iff_toNat_le.mp small) (not_le.mpr (isSmall.trans_le above))
  have positive : ¬ 0x80000000 ≤ w := fun negative => absurd (UInt32.le_iff_toNat_le.mp negative) (not_le.mpr (below.trans (by decide)))
  have isSmall : w ≤ 0xffff := UInt32.le_iff_toNat_le.mpr (by simp only [UInt32.reduceToNat]; omega)
  rw [encode_unit, if_neg (not_or.mpr ⟨larger _ (by decide), positive⟩), if_neg (larger _ (by decide)), if_pos isSmall]
  rfl

end

theorem lengths_equal {one other : Char → Bytes} (shorter : ∀ c, (one c).length ≤ (other c).length) {chars : List Char}
    (same : chars.flatMap one = chars.flatMap other) : ∀ c ∈ chars, (one c).length = (other c).length := by
  have all : ∀ chars : List Char, (chars.flatMap one).length ≤ (chars.flatMap other).length := by
    intro chars
    induction chars with
    | nil => exact le_rfl
    | cons c chars ih =>
      have first := shorter c
      simp only [List.flatMap_cons, List.length_append]
      omega
  replace same := congrArg List.length same
  induction chars with
  | nil => simp
  | cons c chars ih =>
    have first := shorter c
    have rest := all chars
    simp only [List.flatMap_cons, List.length_append] at same
    intro d isIn
    rcases List.mem_cons.mp isIn with rfl | isIn
    · omega
    · exact ih (by omega) d isIn

theorem surrogate_toNat {c : Char} (large : 0x10000 ≤ c.val.toNat) :
    (0xD800 + (c.val - 0x10000) / 0x400).toNat = 0xD800 + (c.val.toNat - 0x10000) / 0x400 ∧
      (0xDC00 + (c.val - 0x10000) % 0x400).toNat = 0xDC00 + (c.val.toNat - 0x10000) % 0x400 := by
  have most : c.val.toNat < 0x110000 := by
    have valid : c.val.toNat.isValidChar := c.valid
    simp only [Nat.isValidChar] at valid
    omega
  have offset : (c.val - 0x10000).toNat = c.val.toNat - 0x10000 := UInt32.toNat_sub_of_le _ _ (UInt32.le_iff_toNat_le.mpr large)
  constructor
  · rw [UInt32.toNat_add, UInt32.toNat_div, offset]
    refine Nat.mod_eq_of_lt ?_
    simp only [UInt32.reduceToNat, Nat.reducePow]
    omega
  · rw [UInt32.toNat_add, UInt32.toNat_mod, offset]
    refine Nat.mod_eq_of_lt ?_
    simp only [UInt32.reduceToNat, Nat.reducePow]
    omega

theorem encode_above {size : WCharSize} {c : Char} (large : 0x10000 ≤ c.val.toNat) :
    (String.utf8EncodeChar c).length = 4 ∧ ((units_of size c).flatMap encode_unit).length = (if size = .four then 1 else 6) := by
  have isValue : Char.ofNat c.val.toNat = c := c.ofNat_toNat
  have most : c.val.toNat < 0x110000 := by
    have valid : c.val.toNat.isValidChar := c.valid
    simp only [Nat.isValidChar] at valid
    omega
  have encoded := encode_four c.valid large
  constructor
  · have length := congrArg List.length encoded
    rwa [← Char.toNat, Char.ofNat_toNat] at length
  cases size with
  | four =>
    rw [units_of, if_pos (.inl rfl), List.flatMap_cons, encode_large large (most.trans (by decide))]
    rfl
  | two =>
    have above : ¬ c.val < 0x10000 := fun small => absurd (UInt32.lt_iff_toNat_lt.mp small) (not_lt.mpr large)
    obtain ⟨first, second⟩ := surrogate_toNat large
    rw [units_of, if_neg (not_or.mpr ⟨by decide, above⟩), List.flatMap_cons, List.flatMap_cons, List.flatMap_nil, List.length_append,
      List.length_append, encode_surrogate (by omega) (by omega), encode_surrogate (by omega) (by omega)]
    rfl

theorem encode_of_small (size : WCharSize) {c : Char} (small : c.val.toNat < 0x10000) :
    (units_of size c).flatMap encode_unit = String.utf8EncodeChar c := by
  rw [units_of, if_pos (.inr (UInt32.lt_iff_toNat_lt.mpr small)), List.flatMap_cons, List.flatMap_nil, List.append_nil, encode_small small]

theorem encode_iff (size : WCharSize) (chars : List Char) :
    wstr_to_utf8 (chars.flatMap (units_of size)) = chars.flatMap String.utf8EncodeChar ↔ ∀ c ∈ chars, c.val.toNat < 0x10000 := by
  rw [wstr_eq, List.flatMap_assoc]
  constructor
  · intro same
    have lengths : ∀ c ∈ chars, ((units_of size c).flatMap encode_unit).length = (String.utf8EncodeChar c).length := by
      cases size with
      | four =>
        refine lengths_equal (fun c => ?_) same
        by_cases small : c.val.toNat < 0x10000
        · rw [encode_of_small .four small]
        · obtain ⟨length, written⟩ := @encode_above .four c (not_lt.mp small)
          rw [length, written]
          decide
      | two =>
        refine fun c isIn => (lengths_equal (fun c => ?_) same.symm c isIn).symm
        by_cases small : c.val.toNat < 0x10000
        · rw [encode_of_small .two small]
        · obtain ⟨length, written⟩ := @encode_above .two c (not_lt.mp small)
          rw [length, written]
          decide
    intro c isIn
    by_contra large
    have same := lengths c isIn
    obtain ⟨length, written⟩ := @encode_above size c (not_lt.mp large)
    rw [length, written] at same
    split_ifs at same <;> omega
  · intro small
    exact List.flatMap_congr fun c isIn => encode_of_small size (small c isIn)

theorem calm_chars {size : WCharSize} {chars : List Char} (small : ∀ c ∈ chars, c.val.toNat < 0x10000) : Calm size (chars.map .char) := by
  induction chars with
  | nil => trivial
  | cons c chars ih => exact ⟨fun _ => small c List.mem_cons_self, ih fun d isIn => small d (List.mem_cons_of_mem c isIn)⟩

/-! ## The conversions -/

/-- The encoders give the encoding of a string, and it is read as the string again, exactly if there is no character above U+FFFF in it. The
decoder does what it should exactly if behind every ill-formed piece that begins with one of the bytes C0 to F7 there is nothing or an ASCII
character, and where `wchar_t` has two bytes no character is above U+FFFF. -/
theorem utf8_iff (size : WCharSize) (chars : List Char) (bytes : Bytes) :
    (EncodeCorrect size chars ↔ ∀ c ∈ chars, c.val.toNat < 0x10000) ∧ (DecodeCorrect size bytes ↔ Calm size (pieces none bytes)) := by
  refine ⟨⟨fun correct => (encode_iff size chars).mp correct.2.2.1, fun small => ?_⟩, (read_iff size bytes).1 0⟩
  have encoded := (encode_iff size chars).mpr small
  obtain ⟨withLength, without⟩ := encoders_agree (chars.flatMap (units_of size))
  refine ⟨withLength, without, encoded, ?_⟩
  have isPieces : pieces none (chars.flatMap String.utf8EncodeChar) = chars.map .char := by
    have whole := pieces_encode chars []
    rwa [List.append_nil, pieces, List.append_nil] at whole
  have reads := ((read_iff size (chars.flatMap String.utf8EncodeChar)).1 0).mpr (isPieces ▸ calm_chars small)
  rw [encoded, reads, isPieces, List.flatMap_map]
  rfl

/-- U+1F600 is written as a question mark, or as two surrogates of three bytes each; C0 80 is read as U+0000, and C3 in front of é is lost. -/
theorem utf8_differs :
    wstr_to_utf8 (units_of .four (Char.ofNat 0x1F600)) = [63] ∧
    wstr_to_utf8 (units_of .two (Char.ofNat 0x1F600)) = [0xED, 0xA0, 0xBD, 0xED, 0xB8, 0x80] ∧
    utf8_to_wstr .four 0 0 [0xC0, 0x80] = [0] ∧ utf8_to_wstr .four 0 0 [0xC3, 0xC3, 0xA9] = [0xE9] ∧
    ¬ EncodeCorrect .four [Char.ofNat 0x1F600] ∧ ¬ EncodeCorrect .two [Char.ofNat 0x1F600] ∧
    ¬ DecodeCorrect .four [0xC0, 0x80] ∧ ¬ DecodeCorrect .two [0xC3, 0xC3, 0xA9] := by
  refine ⟨by decide +kernel, by decide +kernel, by decide +kernel, by decide +kernel, fun correct => ?_, fun correct => ?_, ?_, ?_⟩
  · exact absurd correct.2.2.1 (by decide +kernel)
  · exact absurd correct.2.2.1 (by decide +kernel)
  · rw [DecodeCorrect]
    decide +kernel
  · rw [DecodeCorrect]
    decide +kernel

end TaskExplorer.WideStrings
