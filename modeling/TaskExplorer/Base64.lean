import Mathlib

/-!
# Base64 as the updater reads it

The signature of an update is a text of the server. Its size is counted from the `=` at its
end, while the decoder looks for `=` group by group and takes it for a character anywhere.
-/

namespace TaskExplorer.Base64

/-! ## The functions -/

/-- `L'='`. -/
def pad : UInt16 := 61

/-- `b64_chars`: `A` to `Z`, `a` to `z`, `0` to `9`, `+` and `/`. -/
def b64_chars : List UInt16 :=
  (List.range 26).map (fun k => (65 + k).toUInt16) ++ (List.range 26).map (fun k => (97 + k).toUInt16) ++
    (List.range 10).map (fun k => (48 + k).toUInt16) ++ [43, 47]

def b64_encoded_size (inlen : Nat) : Nat :=
  let ret := if inlen % 3 ≠ 0 then inlen + (3 - inlen % 3) else inlen
  ret / 3 * 4

/-- `b64_chars[v & 0x3F]`. -/
def sextet (v : Nat) : UInt16 := b64_chars.getD (v &&& 0x3F) 0

/-- The groups of four that the bytes are written as. -/
def encode_groups : List UInt8 → List UInt16
  | [] => []
  | [x] =>
    let v := x.toNat <<< 8 <<< 8
    [sextet (v >>> 18), sextet (v >>> 12), pad, pad]
  | [x, y] =>
    let v := (x.toNat <<< 8 ||| y.toNat) <<< 8
    [sextet (v >>> 18), sextet (v >>> 12), sextet (v >>> 6), pad]
  | x :: y :: z :: rest =>
    let v := (x.toNat <<< 8 ||| y.toNat) <<< 8 ||| z.toNat
    sextet (v >>> 18) :: sextet (v >>> 12) :: sextet (v >>> 6) :: sextet v :: encode_groups rest

/-- No text is made of no bytes. -/
def b64_encode (inbytes : List UInt8) : Option (List UInt16) :=
  if inbytes = [] then none else encode_groups inbytes

/-- `ret--` on a `size_t`. -/
def before (ret : Nat) : Nat := if ret = 0 then 2 ^ 64 - 1 else ret - 1

/-- The loop of `b64_decoded_size` over the text from its end. -/
def trim : List UInt16 → Nat → Nat
  | [], ret => ret
  | c :: rest, ret => if c = pad then trim rest (before ret) else ret

def b64_decoded_size (s : List UInt16) : Nat := trim s.reverse (s.length / 4 * 3)

def b64_invs : List (BitVec 32) :=
  [62, -1, -1, -1, 63, 52, 53, 54, 55, 56, 57, 58,
    59, 60, 61, -1, -1, -1, -1, -1, -1, -1, 0, 1, 2, 3, 4, 5,
    6, 7, 8, 9, 10, 11, 12, 13, 14, 15, 16, 17, 18, 19, 20,
    21, 22, 23, 24, 25, -1, -1, -1, -1, -1, -1, 26, 27, 28,
    29, 30, 31, 32, 33, 34, 35, 36, 37, 38, 39, 40, 41, 42,
    43, 44, 45, 46, 47, 48, 49, 50, 51]

def b64_isvalidchar (c : UInt16) : Bool :=
  if 48 ≤ c && c ≤ 57 then true
  else if 65 ≤ c && c ≤ 90 then true
  else if 97 ≤ c && c ≤ 122 then true
  else c == 43 || c == 47 || c == pad

/-- The index that a character is looked up at. -/
def place (c : UInt16) : Int := c.toNat - 43

/-- `b64_invs[c-43]`. -/
def inv (c : UInt16) : BitVec 32 := b64_invs.getD (place c).toNat 0

/-- What a call does: its answer, the indices it looks up and the bytes it writes to `out`. -/
structure Decoding where
  ret : Nat
  lookups : List Int
  stores : List (Nat × UInt8)
deriving DecidableEq

/-- `v` after the four characters of a group. -/
def group_value (a b c d : UInt16) : BitVec 32 :=
  let v := inv a
  let v := v <<< 6 ||| inv b
  let v := if c = pad then v <<< 6 else v <<< 6 ||| inv c
  if d = pad then v <<< 6 else v <<< 6 ||| inv d

/-- `(v >> n) & 0xFF`. -/
def octet (v : BitVec 32) (n : Nat) : UInt8 := ⟨((v.sshiftRight n) &&& 0xFF).setWidth 8⟩

def group_lookups (a b c d : UInt16) : List Int :=
  [place a, place b] ++ (if c = pad then [] else [place c]) ++ (if d = pad then [] else [place d])

def group_stores (a b c d : UInt16) (j : Nat) : List (Nat × UInt8) :=
  let v := group_value a b c d
  [(j, octet v 16)] ++ (if c = pad then [] else [(j + 1, octet v 8)]) ++ (if d = pad then [] else [(j + 2, octet v 0)])

/-- The loop over the groups; the length is a multiple of four. -/
def decode_groups : List UInt16 → Nat → List Int × List (Nat × UInt8)
  | a :: b :: c :: d :: rest, j =>
    let later := decode_groups rest (j + 3)
    (group_lookups a b c d ++ later.1, group_stores a b c d j ++ later.2)
  | _, _ => ([], [])

def b64_decode (s : List UInt16) (outlen : Nat) : Decoding :=
  if outlen < b64_decoded_size s ∨ s.length % 4 ≠ 0 then ⟨0, [], []⟩
  else if ¬ s.all b64_isvalidchar then ⟨0, [], []⟩
  else ⟨1, (decode_groups s 0).1, (decode_groups s 0).2⟩

/-- A buffer after the bytes were written to it. -/
def store (out : List UInt8) (stores : List (Nat × UInt8)) : List UInt8 :=
  stores.foldl (fun out byte => out.set byte.1 byte.2) out

/-- What `VerifyUpdate` has decoded: the size is cut to a `ULONG` and the answer is not looked at. -/
def verify_decode (Sign : List UInt16) : Option (Nat × Decoding) :=
  let signatureSize := b64_decoded_size Sign % 2 ^ 32
  if signatureSize = 0 then none else (signatureSize, b64_decode Sign signatureSize)

/-! ## What the texts are -/

/-- A padded text: whole groups of the alphabet, with one or two `=` at the end at most. -/
def WellFormed (s : List UInt16) : Prop :=
  s.length % 4 = 0 ∧ ∃ body, (∀ c ∈ body, c ∈ b64_chars) ∧ (s = body ∨ s = body ++ [pad] ∨ s = body ++ [pad, pad])

/-- The count goes below zero. -/
def Dips : List UInt16 → Nat → Prop
  | [], _ => False
  | c :: rest, ret => c = pad ∧ (ret = 0 ∨ Dips rest (before ret))

/-- Safe and exact decoding of one text into a buffer of one size. -/
structure Decoded (s : List UInt16) (outlen : Nat) : Prop where
  inside : ∀ byte ∈ (b64_decode s outlen).stores, byte.1 < outlen
  looked : ∀ k ∈ (b64_decode s outlen).lookups, 0 ≤ k ∧ k < b64_invs.length
  counted : ¬ Dips s.reverse (s.length / 4 * 3)
  answered : (b64_decode s outlen).ret = 1 ↔ WellFormed s

/-- The text of the bytes has their number and gives them back. -/
def RoundTrip (x : List UInt8) : Prop :=
  ∃ s, b64_encode x = some s ∧ b64_decoded_size s = x.length ∧
    ∀ out, x.length ≤ out.length →
      (b64_decode s out.length).ret = 1 ∧ store out (b64_decode s out.length).stores = x ++ out.drop x.length

/-- `=` stands only as the last one or two of the characters. -/
def Late (s : List UInt16) : Prop := pad ∉ s.take (s.length - 2) ∧ (pad ∈ s → s.getLast? = some pad)

instance (s : List UInt16) : Decidable (Late s) := inferInstanceAs (Decidable (_ ∧ _))

/-- Where the decoder is exact: the `=` at the end are no more than the size they are taken from,
    and in whole groups of valid characters `=` stands only as the last one or two. -/
def Padded (s : List UInt16) : Prop :=
  (s.reverse.takeWhile (· = pad)).length ≤ s.length / 4 * 3 ∧
    (s.length % 4 = 0 → s.all b64_isvalidchar = true → Late s)

instance (s : List UInt16) : Decidable (Padded s) := inferInstanceAs (Decidable (_ ∧ _))

/-! ## The size -/

theorem dips_iff (l : List UInt16) (ret : Nat) : Dips l ret ↔ ret < (l.takeWhile (· = pad)).length := by
  induction l generalizing ret with
  | nil => simp [Dips]
  | cons c rest ih =>
    by_cases padded : c = pad
    · simp only [Dips, padded, ih, true_and, before, List.takeWhile_cons, decide_true, if_true, List.length_cons]
      split_ifs <;> omega
    · simp [Dips, padded]

theorem trim_eq (l : List UInt16) (ret : Nat) (h : (l.takeWhile (· = pad)).length ≤ ret) :
    trim l ret = ret - (l.takeWhile (· = pad)).length := by
  induction l generalizing ret with
  | nil => rfl
  | cons c rest ih =>
    by_cases padded : c = pad
    · simp only [padded, List.takeWhile_cons, decide_true, if_true, List.length_cons] at h ⊢
      have positive : before ret = ret - 1 := if_neg (by omega)
      rw [trim, if_pos rfl, ih _ (by omega), positive]
      omega
    · simp [trim, padded]

theorem trailing_le (s : List UInt16) : (s.reverse.takeWhile (· = pad)).length ≤ s.count pad := by
  have short := (List.takeWhile_sublist (fun c => decide (c = pad)) (l := s.reverse)).count_le pad
  have all : ((s.reverse.takeWhile (· = pad)).count pad) = (s.reverse.takeWhile (· = pad)).length := by
    rw [List.count_eq_length]
    intro c h
    simpa [eq_comm] using List.mem_takeWhile_imp h
  rw [List.count_reverse] at short
  omega

/-! ## Groups -/

theorem place_inside : ∀ c : UInt16, b64_isvalidchar c = true → 0 ≤ place c ∧ place c < b64_invs.length := by
  intro c h
  have bounds : 43 ≤ c.toNat ∧ c.toNat ≤ 122 := by
    simp only [b64_isvalidchar, pad, Bool.and_eq_true, decide_eq_true_eq, UInt16.le_iff_toNat_le] at h
    split_ifs at h with digit upper lower
    · exact ⟨by have := digit.1; simp at this; omega, by have := digit.2; simp at this; omega⟩
    · exact ⟨by have := upper.1; simp at this; omega, by have := upper.2; simp at this; omega⟩
    · exact ⟨by have := lower.1; simp at this; omega, by have := lower.2; simp at this; omega⟩
    · rw [Bool.or_eq_true, Bool.or_eq_true, beq_iff_eq, beq_iff_eq, beq_iff_eq] at h
      rcases h with (rfl | rfl) | rfl <;> decide
  have size : b64_invs.length = 80 := rfl
  rw [size]
  simp only [place]
  omega

theorem lookups_inside (s : List UInt16) (j : Nat) (h : ∀ c ∈ s, b64_isvalidchar c = true) :
    ∀ k ∈ (decode_groups s j).1, 0 ≤ k ∧ k < b64_invs.length := by
  induction s, j using decode_groups.induct with
  | case1 a b c d rest j ih =>
    intro k hk
    rw [decode_groups, List.mem_append] at hk
    rcases hk with hk | hk
    · have found : k = place a ∨ k = place b ∨ k = place c ∨ k = place d := by
        simp only [group_lookups] at hk
        split_ifs at hk <;> simp at hk <;> tauto
      rcases found with rfl | rfl | rfl | rfl <;> exact place_inside _ (h _ (by simp))
    · exact ih (fun c hc => h c (by simp [hc])) k hk
  | case2 s j short => simp [decode_groups]

theorem late_tail {a b c d : UInt16} {rest : List UInt16} (more : 2 ≤ rest.length) (h : Late (a :: b :: c :: d :: rest)) :
    (a ≠ pad ∧ b ≠ pad ∧ c ≠ pad ∧ d ≠ pad) ∧ Late rest := by
  obtain ⟨early, final⟩ := h
  have shape : (a :: b :: c :: d :: rest).take ((a :: b :: c :: d :: rest).length - 2) =
      a :: b :: c :: d :: rest.take (rest.length - 2) := by
    have e : (a :: b :: c :: d :: rest).length - 2 = (rest.length - 2) + 1 + 1 + 1 + 1 := by
      simp only [List.length_cons]
      omega
    rw [e]
    rfl
  rw [shape] at early
  simp only [List.mem_cons, not_or] at early
  refine ⟨⟨Ne.symm early.1, Ne.symm early.2.1, Ne.symm early.2.2.1, Ne.symm early.2.2.2.1⟩, early.2.2.2.2, fun h => ?_⟩
  have e := final (by simp [h])
  have nonempty : rest ≠ [] := List.ne_nil_of_mem h
  rwa [List.getLast?_cons_cons, List.getLast?_cons_cons, List.getLast?_cons_cons, List.getLast?_cons_of_ne_nil nonempty] at e

theorem late_count {s : List UInt16} (h : Late s) : s.count pad ≤ 2 := by
  have split : s.count pad = (s.take (s.length - 2)).count pad + (s.drop (s.length - 2)).count pad := by
    rw [← List.count_append, List.take_append_drop]
  have zero : (s.take (s.length - 2)).count pad = 0 := List.count_eq_zero.mpr h.1
  have most := List.count_le_length (a := pad) (l := s.drop (s.length - 2))
  rw [List.length_drop] at most
  omega

theorem group_inside {a b c d : UInt16} (j : Nat) (h : Late [a, b, c, d]) :
    ∀ byte ∈ group_stores a b c d j, byte.1 + [a, b, c, d].count pad < j + 3 := by
  intro byte hb
  obtain ⟨early, final⟩ := h
  have first : a ≠ pad ∧ b ≠ pad := by simpa [eq_comm] using early
  have order : c = pad → d = pad := fun e => by simpa using final (by simp [e])
  have counts : List.count pad [a, b, c, d] = (if c = pad then 1 else 0) + (if d = pad then 1 else 0) := by
    simp [List.count_cons, first]
    omega
  rw [counts]
  simp only [group_stores] at hb
  by_cases hc : c = pad
  · simp only [hc, order hc, if_true, List.append_nil, List.mem_singleton] at hb ⊢
    subst hb
    simp
  · by_cases hd : d = pad
    · simp [hc, hd] at hb ⊢
      rcases hb with rfl | rfl <;> simp
    · simp [hc, hd] at hb ⊢
      rcases hb with rfl | rfl | rfl <;> simp

theorem stores_inside (s : List UInt16) (j : Nat) (whole : s.length % 4 = 0) (late : Late s) :
    ∀ byte ∈ (decode_groups s j).2, byte.1 + s.count pad < j + s.length / 4 * 3 := by
  induction s, j using decode_groups.induct with
  | case1 a b c d rest j ih =>
    intro byte hb
    rw [decode_groups, List.mem_append] at hb
    by_cases last : rest = []
    · subst last
      rcases hb with hb | hb
      · exact (group_inside j late byte hb).trans_le (by simp)
      · simp [decode_groups] at hb
    · have many : 4 ≤ rest.length := by
        have some := List.length_pos_iff.mpr last
        simp only [List.length_cons] at whole
        omega
      obtain ⟨none, rest_late⟩ := late_tail (by omega) late
      have counts : List.count pad (a :: b :: c :: d :: rest) = List.count pad rest := by simp [none]
      have size : (a :: b :: c :: d :: rest).length / 4 * 3 = rest.length / 4 * 3 + 3 := by
        simp only [List.length_cons]
        omega
      have few := late_count rest_late
      rw [counts, size]
      rcases hb with hb | hb
      · simp only [group_stores, none, if_false, List.mem_append, List.mem_singleton] at hb
        rcases hb with (rfl | rfl) | rfl <;> simp only [] <;> omega
      · have deep := ih (by simp only [List.length_cons] at whole; omega) rest_late byte hb
        omega
  | case2 s j short => simp [decode_groups]

/-! ## The text of the bytes -/

theorem sextet_facts (k : Nat) (small : k < 64) :
    b64_chars.getD k 0 ∈ b64_chars ∧ inv (b64_chars.getD k 0) = BitVec.ofNat 32 k := by
  have all : (List.range 64).all (fun k => b64_chars.contains (b64_chars.getD k 0) &&
      inv (b64_chars.getD k 0) == BitVec.ofNat 32 k) = true := by decide +kernel
  simpa using List.all_eq_true.mp all k (List.mem_range.mpr small)

theorem alphabet_valid (c : UInt16) (member : c ∈ b64_chars) : b64_isvalidchar c = true ∧ c ≠ pad := by
  have all : b64_chars.all (fun c => b64_isvalidchar c && c != pad) = true := by decide +kernel
  simpa using List.all_eq_true.mp all c member

theorem sextet_mem (v : Nat) : sextet v ∈ b64_chars := by
  have small : v &&& 0x3F < 64 := Nat.lt_of_le_of_lt Nat.and_le_right (by decide)
  exact (sextet_facts _ small).1

theorem sextet_ne (v : Nat) : sextet v ≠ pad := (alphabet_valid _ (sextet_mem v)).2

theorem inv_sextet (v : Nat) : (inv (sextet v)).toNat = v % 64 := by
  have small : v &&& 0x3F < 64 := Nat.lt_of_le_of_lt Nat.and_le_right (by decide)
  have masked : v &&& 0x3F = v % 64 := Nat.and_two_pow_sub_one_eq_mod v 6
  rw [sextet, (sextet_facts _ small).2, BitVec.toNat_ofNat]
  show (v &&& 0x3F) % 2 ^ 32 = v % 64
  omega

theorem shift_or (v k : BitVec 32) (hv : v.toNat < 2 ^ 26) (hk : k.toNat < 64) : (v <<< 6 ||| k).toNat = v.toNat * 64 + k.toNat := by
  rw [BitVec.toNat_or, BitVec.toNat_shiftLeft, Nat.shiftLeft_eq, Nat.mod_eq_of_lt (by omega), ← Nat.shiftLeft_eq,
    ← Nat.shiftLeft_add_eq_or_of_lt (by omega), Nat.shiftLeft_eq]

theorem shift (v : BitVec 32) (hv : v.toNat < 2 ^ 26) : (v <<< 6).toNat = v.toNat * 64 := by
  rw [BitVec.toNat_shiftLeft, Nat.shiftLeft_eq, Nat.mod_eq_of_lt (by omega)]

theorem octet_toNat (v : BitVec 32) (n : Nat) (h : v.toNat < 2 ^ 31) : (octet v n).toNat = v.toNat / 2 ^ n % 256 := by
  have positive : v.msb = false := by
    rw [BitVec.msb_eq_decide]
    simpa using h
  have masked : v.toNat >>> n &&& 255 = v.toNat / 2 ^ n % 256 := by
    rw [Nat.shiftRight_eq_div_pow]
    exact Nat.and_two_pow_sub_one_eq_mod _ 8
  have small : v.toNat / 2 ^ n % 256 < 256 := Nat.mod_lt _ (by decide)
  change ((v.sshiftRight n &&& 0xFF).setWidth 8).toNat = _
  rw [BitVec.sshiftRight_eq_of_msb_false positive, BitVec.toNat_setWidth, BitVec.toNat_and, BitVec.toNat_ushiftRight]
  change (v.toNat >>> n &&& 255) % 2 ^ 8 = _
  rw [masked]
  omega

theorem group_value_eq (v : Nat) (c d : UInt16) (hv : v < 2 ^ 24) (hc : c = sextet (v >>> 6) ∨ c = pad ∧ v % 4096 = 0)
    (hd : d = sextet v ∨ d = pad ∧ v % 64 = 0) : (group_value (sextet (v >>> 18)) (sextet (v >>> 12)) c d).toNat = v := by
  have e18 : v >>> 18 = v / 262144 := Nat.shiftRight_eq_div_pow v 18
  have e12 : v >>> 12 = v / 4096 := Nat.shiftRight_eq_div_pow v 12
  have e6 : v >>> 6 = v / 64 := Nat.shiftRight_eq_div_pow v 6
  have ia := inv_sextet (v >>> 18)
  have ib := inv_sextet (v >>> 12)
  have ic := inv_sextet (v >>> 6)
  have id := inv_sextet v
  rw [e18] at ia
  rw [e12] at ib
  rw [e6] at ic
  have two := shift_or (inv (sextet (v >>> 18))) (inv (sextet (v >>> 12))) (by rw [e18]; omega) (by rw [e12]; omega)
  rw [e18, e12, ia, ib] at two
  have three : ((if c = pad then (inv (sextet (v >>> 18)) <<< 6 ||| inv (sextet (v >>> 12))) <<< 6
      else (inv (sextet (v >>> 18)) <<< 6 ||| inv (sextet (v >>> 12))) <<< 6 ||| inv c)).toNat = v / 64 := by
    rw [e18, e12]
    rcases hc with rfl | ⟨rfl, zero⟩
    · rw [if_neg (sextet_ne _), e6, shift_or _ _ (by omega) (by omega), two, ic]
      omega
    · rw [if_pos rfl, shift _ (by omega), two]
      omega
  simp only [group_value]
  rcases hd with rfl | ⟨rfl, zero⟩
  · rw [if_neg (sextet_ne _), shift_or _ _ (by omega) (by omega), three, id]
    omega
  · rw [if_pos rfl, shift _ (by omega), three]
    omega

theorem number_eq (x y z : Nat) (hy : y < 256) (hz : z < 256) : (x <<< 8 ||| y) <<< 8 ||| z = x * 65536 + y * 256 + z := by
  rw [← Nat.shiftLeft_add_eq_or_of_lt hz, ← Nat.shiftLeft_add_eq_or_of_lt hy, Nat.shiftLeft_eq, Nat.shiftLeft_eq]
  omega

theorem octets_eq (w : BitVec 32) (x y z : Nat) (hx : x < 256) (hy : y < 256) (hz : z < 256) (hw : w.toNat = x * 65536 + y * 256 + z) :
    octet w 16 = x.toUInt8 ∧ octet w 8 = y.toUInt8 ∧ octet w 0 = z.toUInt8 := by
  have of_nat (n k : Nat) (hk : k < 256) (h : (octet w n).toNat = k) : octet w n = k.toUInt8 := by
    apply UInt8.toNat_inj.mp
    rw [h]
    exact (Nat.mod_eq_of_lt hk).symm
  refine ⟨of_nat 16 x hx ?_, of_nat 8 y hy ?_, of_nat 0 z hz ?_⟩ <;> rw [octet_toNat _ _ (by omega), hw] <;> omega

/-- The bytes and the places they are written to. -/
def numbered (x : List UInt8) (j : Nat) : List (Nat × UInt8) := (x.zipIdx j).map Prod.swap

theorem stores_encode (x : List UInt8) (j : Nat) : (decode_groups (encode_groups x) j).2 = numbered x j := by
  induction x using encode_groups.induct generalizing j with
  | case1 => rfl
  | case2 x =>
    have hx := x.toNat_lt
    have number : x.toNat <<< 8 <<< 8 = x.toNat * 65536 + 0 * 256 + 0 := by
      rw [Nat.shiftLeft_eq, Nat.shiftLeft_eq]
      omega
    have value := group_value_eq (x.toNat <<< 8 <<< 8) pad pad (by omega) (.inr ⟨rfl, by omega⟩) (.inr ⟨rfl, by omega⟩)
    obtain ⟨first, -, -⟩ := octets_eq _ x.toNat 0 0 hx (by decide) (by decide) (value.trans number)
    simp [encode_groups, decode_groups, group_stores, numbered, first]
  | case3 x y =>
    have hx := x.toNat_lt
    have hy := y.toNat_lt
    have number : (x.toNat <<< 8 ||| y.toNat) <<< 8 = x.toNat * 65536 + y.toNat * 256 + 0 := by
      rw [← number_eq _ _ _ hy (by decide), Nat.or_zero]
    have value := group_value_eq ((x.toNat <<< 8 ||| y.toNat) <<< 8) _ pad (by omega) (.inl rfl) (.inr ⟨rfl, by omega⟩)
    obtain ⟨first, second, -⟩ := octets_eq _ x.toNat y.toNat 0 hx hy (by decide) (value.trans number)
    simp [encode_groups, decode_groups, group_stores, numbered, first, second, sextet_ne]
  | case4 x y z rest ih =>
    have hx := x.toNat_lt
    have hy := y.toNat_lt
    have hz := z.toNat_lt
    obtain ⟨v, is_v⟩ : ∃ v, v = (x.toNat <<< 8 ||| y.toNat) <<< 8 ||| z.toNat := ⟨_, rfl⟩
    have number : v = x.toNat * 65536 + y.toNat * 256 + z.toNat := is_v.trans (number_eq _ _ _ hy hz)
    have value := group_value_eq v _ _ (by omega) (.inl rfl) (.inl rfl)
    obtain ⟨first, second, third⟩ := octets_eq _ x.toNat y.toNat z.toNat hx hy hz (value.trans number)
    have shape : encode_groups (x :: y :: z :: rest) =
        sextet (v >>> 18) :: sextet (v >>> 12) :: sextet (v >>> 6) :: sextet v :: encode_groups rest := by rw [is_v, encode_groups]
    rw [shape, decode_groups, ih]
    simp [group_stores, numbered, first, second, third, sextet_ne]

theorem encode_shape (x : List UInt8) : ∃ body, (∀ c ∈ body, c ∈ b64_chars) ∧
    encode_groups x = body ++ List.replicate ((3 - x.length % 3) % 3) pad ∧
      (encode_groups x).length = b64_encoded_size x.length := by
  induction x using encode_groups.induct with
  | case1 => exact ⟨[], by simp, rfl, rfl⟩
  | case2 x =>
    refine ⟨[sextet (x.toNat <<< 8 <<< 8 >>> 18), sextet (x.toNat <<< 8 <<< 8 >>> 12)], ?_, rfl, ?_⟩
    · simp [sextet_mem]
    · simp [encode_groups, b64_encoded_size]
  | case3 x y =>
    obtain ⟨v, is_v⟩ : ∃ v, v = (x.toNat <<< 8 ||| y.toNat) <<< 8 := ⟨_, rfl⟩
    refine ⟨[sextet (v >>> 18), sextet (v >>> 12), sextet (v >>> 6)], ?_, by rw [is_v]; rfl, ?_⟩
    · simp [sextet_mem]
    · simp [encode_groups, b64_encoded_size]
  | case4 x y z rest ih =>
    obtain ⟨body, alphabet, shape, size⟩ := ih
    obtain ⟨v, is_v⟩ : ∃ v, v = (x.toNat <<< 8 ||| y.toNat) <<< 8 ||| z.toNat := ⟨_, rfl⟩
    refine ⟨sextet (v >>> 18) :: sextet (v >>> 12) :: sextet (v >>> 6) :: sextet v :: body, ?_, ?_, ?_⟩
    · simpa [sextet_mem] using alphabet
    · have same : (3 - (x :: y :: z :: rest).length % 3) % 3 = (3 - rest.length % 3) % 3 := by
        simp only [List.length_cons]
        omega
      rw [same]
      simp only [encode_groups, shape, List.cons_append, is_v]
    · simp only [encode_groups, List.length_cons, size, b64_encoded_size]
      split_ifs <;> omega

/-- The bytes written one after the other fill the buffer from `j` on. -/
theorem store_numbered (x out : List UInt8) (j : Nat) (fits : j + x.length ≤ out.length) :
    store out (numbered x j) = out.take j ++ x ++ out.drop (j + x.length) := by
  induction x generalizing out j with
  | nil => simp [store, numbered]
  | cons byte rest ih =>
    simp only [List.length_cons] at fits
    have later := ih (out.set j byte) (j + 1) (by rw [List.length_set]; omega)
    have step : store out (numbered (byte :: rest) j) = store (out.set j byte) (numbered rest (j + 1)) := rfl
    have front : (out.set j byte).take (j + 1) = out.take j ++ [byte] := by
      rw [List.take_add_one, List.getElem?_set_self (by omega), List.take_set_of_le (le_refl j)]
      rfl
    have back : (out.set j byte).drop (j + 1 + rest.length) = out.drop (j + (rest.length + 1)) := by
      rw [List.drop_set_of_lt (by omega), show j + 1 + rest.length = j + (rest.length + 1) by omega]
    rw [step, later, front, back, List.length_cons]
    simp

theorem encode_decoded_size (x : List UInt8) : b64_decoded_size (encode_groups x) = x.length := by
  obtain ⟨body, alphabet, shape, size⟩ := encode_shape x
  have pads : ((encode_groups x).reverse.takeWhile (· = pad)).length = (3 - x.length % 3) % 3 := by
    have stop : body.reverse.takeWhile (fun c => decide (c = pad)) = [] := by
      cases rev : body.reverse with
      | nil => rfl
      | cons c front =>
        have member : c ∈ body := List.mem_reverse.mp (by simp [rev])
        simp [(alphabet_valid c (alphabet c member)).2]
    have all : (List.replicate ((3 - x.length % 3) % 3) pad).takeWhile (fun c => decide (c = pad)) =
        List.replicate ((3 - x.length % 3) % 3) pad := List.takeWhile_eq_self_iff.mpr (by simp)
    rw [shape, List.reverse_append, List.reverse_replicate, List.takeWhile_append, all, if_pos rfl, stop]
    simp
  have counted : (encode_groups x).length / 4 * 3 = x.length + (3 - x.length % 3) % 3 := by
    rw [size, b64_encoded_size]
    split_ifs <;> omega
  rw [b64_decoded_size, trim_eq _ _ (by omega), pads, counted]
  omega

theorem round_trip (x : List UInt8) (h : x ≠ []) : RoundTrip x := by
  refine ⟨encode_groups x, if_neg h, encode_decoded_size x, fun out fits => ?_⟩
  obtain ⟨body, alphabet, shape, size⟩ := encode_shape x
  have whole : (encode_groups x).length % 4 = 0 := by
    rw [size, b64_encoded_size]
    omega
  have valid : (encode_groups x).all b64_isvalidchar = true := by
    rw [List.all_eq_true, shape]
    intro c hc
    rcases List.mem_append.mp hc with hc | hc
    · exact (alphabet_valid c (alphabet c hc)).1
    · rw [List.eq_of_mem_replicate hc]
      decide
  have run : b64_decode (encode_groups x) out.length = ⟨1, (decode_groups (encode_groups x) 0).1, (decode_groups (encode_groups x) 0).2⟩ := by
    rw [b64_decode, if_neg (by rw [encode_decoded_size]; omega), if_neg (by rw [valid]; decide)]
  rw [run]
  refine ⟨rfl, ?_⟩
  show store out (decode_groups (encode_groups x) 0).2 = _
  rw [stores_encode, store_numbered _ _ _ (by omega)]
  simp

/-! ## Safe and exact decoding -/

theorem well_formed_late {s : List UInt16} (h : WellFormed s) : s.all b64_isvalidchar = true ∧ Late s := by
  obtain ⟨-, body, alphabet, shape⟩ := h
  have clean : pad ∉ body := fun h => (alphabet_valid _ (alphabet _ h)).2 rfl
  have valid : ∀ c ∈ body, b64_isvalidchar c = true := fun c h => (alphabet_valid c (alphabet c h)).1
  have padded : b64_isvalidchar pad = true := by decide
  rcases shape with rfl | rfl | rfl
  · exact ⟨List.all_eq_true.mpr valid, fun h => clean (List.mem_of_mem_take h), fun h => absurd h clean⟩
  · refine ⟨by simpa [padded] using valid, fun h => clean ?_, by simp⟩
    rw [show (body ++ [pad]).length - 2 = body.length - 1 by simp, List.take_append_of_le_length (by omega)] at h
    exact List.mem_of_mem_take h
  · refine ⟨by simpa [padded] using valid, fun h => clean ?_, by simp⟩
    rw [show (body ++ [pad, pad]).length - 2 = body.length by simp, List.take_append_of_le_length (le_refl _)] at h
    exact List.mem_of_mem_take h

theorem valid_cases : ∀ k : Fin 128, b64_isvalidchar k.val.toUInt16 = true → k.val.toUInt16 ≠ pad → k.val.toUInt16 ∈ b64_chars := by decide +kernel

theorem valid_alphabet {c : UInt16} (valid : b64_isvalidchar c = true) (h : c ≠ pad) : c ∈ b64_chars := by
  have small : c.toNat < 128 := by
    have bound := (place_inside c valid).2
    have size : b64_invs.length = 80 := rfl
    simp only [place] at bound
    omega
  have back : (Fin.mk c.toNat small).val.toUInt16 = c := UInt16.ofNat_toNat
  have cases := valid_cases ⟨c.toNat, small⟩
  rw [back] at cases
  exact cases valid h

/-- Whole groups of valid characters with `=` only at the end are a padded text. -/
theorem late_well_formed {s : List UInt16} (whole : s.length % 4 = 0) (valid : s.all b64_isvalidchar = true) (h : Late s) : WellFormed s := by
  rw [List.all_eq_true] at valid
  obtain ⟨early, final⟩ := h
  refine ⟨whole, ?_⟩
  by_cases padded : pad ∈ s
  · obtain ⟨front, rfl⟩ := List.getLast?_eq_some_iff.mp (final padded)
    rcases List.eq_nil_or_concat front with rfl | ⟨body, c, rfl⟩
    · simp at whole
    · rw [List.concat_eq_append] at early valid ⊢
      have shape : (body ++ [c] ++ [pad]).take ((body ++ [c] ++ [pad]).length - 2) = body := by simp
      rw [shape] at early
      have alphabet : ∀ c ∈ body, c ∈ b64_chars := fun d hd => valid_alphabet (valid d (by simp [hd])) (fun e => early (e ▸ hd))
      by_cases hc : c = pad
      · exact ⟨body, alphabet, .inr (.inr (by simp [hc]))⟩
      · refine ⟨body ++ [c], fun d hd => ?_, .inr (.inl rfl)⟩
        rcases List.mem_append.mp hd with hd | hd
        · exact alphabet d hd
        · rw [List.mem_singleton.mp hd]
          exact valid_alphabet (valid c (by simp)) hc
  · exact ⟨s, fun c hc => valid_alphabet (valid c hc) (fun e => padded (e ▸ hc)), .inl rfl⟩

theorem answers (s : List UInt16) (outlen : Nat) (fits : b64_decoded_size s ≤ outlen) :
    b64_decode s outlen = if s.length % 4 = 0 ∧ s.all b64_isvalidchar = true then ⟨1, (decode_groups s 0).1, (decode_groups s 0).2⟩ else ⟨0, [], []⟩ := by
  by_cases whole : s.length % 4 = 0
  · rw [b64_decode, if_neg (by omega)]
    by_cases valid : s.all b64_isvalidchar = true
    · rw [if_neg (by simp [valid]), if_pos ⟨whole, valid⟩]
    · rw [if_pos valid, if_neg (fun h => valid h.2)]
  · rw [b64_decode, if_pos (.inr whole), if_neg (fun h => whole h.1)]

theorem decoded_iff (s : List UInt16) (outlen : Nat) (fits : b64_decoded_size s ≤ outlen) : Decoded s outlen ↔ Padded s := by
  have run := answers s outlen fits
  constructor
  · rintro ⟨-, -, counted, answered⟩
    rw [dips_iff, Nat.not_lt] at counted
    refine ⟨counted, fun whole valid => ?_⟩
    rw [if_pos ⟨whole, valid⟩] at run
    exact (well_formed_late (answered.mp (by rw [run]))).2
  · rintro ⟨counted, late⟩
    by_cases taken : s.length % 4 = 0 ∧ s.all b64_isvalidchar = true
    · rw [if_pos taken] at run
      have size : b64_decoded_size s = s.length / 4 * 3 - (s.reverse.takeWhile (· = pad)).length := trim_eq _ _ counted
      have trailing := trailing_le s
      constructor
      · intro byte hb
        rw [run] at hb
        have before_end := stores_inside s 0 taken.1 (late taken.1 taken.2) byte hb
        omega
      · rw [run]
        exact lookups_inside s 0 (List.all_eq_true.mp taken.2)
      · rw [dips_iff]
        omega
      · rw [run]
        exact iff_of_true rfl (late_well_formed taken.1 taken.2 (late taken.1 taken.2))
    · rw [if_neg taken] at run
      constructor
      · simp [run]
      · simp [run]
      · rw [dips_iff]
        omega
      · rw [run]
        exact iff_of_false (by decide) (fun h => taken ⟨h.1, (well_formed_late h).1⟩)

/-- Exactly the texts whose `=` stand at the end, one or two, are decoded as they should be. -/
theorem decode_exact (s : List UInt16) (outlen : Nat) (x : List UInt8) (fits : b64_decoded_size s ≤ outlen) (nonempty : x ≠ []) :
    Decoded s outlen ∧ RoundTrip x ↔ Padded s := by
  rw [decoded_iff s outlen fits]
  exact and_iff_left (round_trip x nonempty)

/-- `TWFu` and the bytes of `Man`. -/
theorem decode_exact_man : Decoded [84, 87, 70, 117] 3 ∧ RoundTrip [77, 97, 110] :=
  (decode_exact [84, 87, 70, 117] 3 [77, 97, 110] (by decide) (by decide)).mpr (by decide)

/-- `AAAA====`: two bytes are allocated and the fourth one is written. -/
theorem signature_overrun : verify_decode [65, 65, 65, 65, 61, 61, 61, 61] =
      some (2, ⟨1, [22, 22, 22, 22, 18, 18], [(0, 0), (1, 0), (2, 0), (3, 255)]⟩) ∧
    ¬ (∀ s outlen, b64_decoded_size s ≤ outlen → Decoded s outlen) := by
  refine ⟨by decide, fun h => ?_⟩
  have safe := (h [65, 65, 65, 65, 61, 61, 61, 61] 2 (by decide)).inside
  revert safe
  decide

end TaskExplorer.Base64
