import TaskExplorer.Runs

/-!
# Strings of a region

The string finder of Linux reads a region in windows of one MiB that overlap by a page. Each
window is scanned by itself.
-/

namespace TaskExplorer.StringFinder
open Runs

/-! ## The finder -/

structure SMemOptions where
  MinLength : Int
  Unicode : Bool

structure CStringInfo where
  Address : Nat
  Size : Nat
  BaseAddress : Nat
  RegionSize : Nat
  String : List UInt8
deriving DecidableEq

/-- The block that is scanned, with the region it is of. -/
structure SBlock where
  Data : List UInt8
  BlockAddress : Nat
  BaseAddress : Nat
  RegionSize : Nat

def IsPrintable (c : UInt8) : Bool := 0x20 ≤ c && c < 0x7F

/-- `MinLength`, or 4. -/
def min_length (Options : SMemOptions) : Nat := if Options.MinLength > 0 then Options.MinLength.toNat else 4

def Emit (RegExp : List UInt8 → Bool) (Block : SBlock) (Start Length Stride : Nat) : List CStringInfo :=
  let Text := (List.range Length).map fun i => Block.Data.getD (Start + i * Stride) 0
  if RegExp Text then [⟨Block.BlockAddress + Start, Length * Stride, Block.BaseAddress, Block.RegionSize, Text⟩] else []

/-- The loop over the bytes from the `i`-th on. -/
def ascii_loop (emit : Nat → Nat → List CStringInfo) (MinLength Size : Nat) : List UInt8 → Nat → Nat → List CStringInfo
  | [], _, Run => if MinLength ≤ Run then emit (Size - Run) Run else []
  | c :: rest, i, Run =>
    if IsPrintable c then ascii_loop emit MinLength Size rest (i + 1) (Run + 1)
    else (if MinLength ≤ Run then emit (i - Run) Run else []) ++ ascii_loop emit MinLength Size rest (i + 1) 0

/-- The loop over the units of two bytes from the `i`-th byte on. -/
def unicode_loop (emit : Nat → Nat → List CStringInfo) (MinLength Size : Nat) : List UInt8 → Nat → Nat → List CStringInfo
  | c :: z :: rest, i, Run =>
    if IsPrintable c && z == 0 then unicode_loop emit MinLength Size rest (i + 2) (Run + 1)
    else (if MinLength ≤ Run then emit (i - Run * 2) Run else []) ++ unicode_loop emit MinLength Size rest (i + 2) 0
  | _, _, Run => if MinLength ≤ Run then emit (Size - Run * 2) Run else []

def ScanBlock (Block : SBlock) (Options : SMemOptions) (RegExp : List UInt8 → Bool) : List CStringInfo :=
  ascii_loop (fun Start Run => Emit RegExp Block Start Run 1) (min_length Options) Block.Data.length Block.Data 0 0 ++
    if Options.Unicode then
      unicode_loop (fun Start Run => Emit RegExp Block Start Run 2) (min_length Options) Block.Data.length Block.Data 0 0
    else []

def WindowSize : Nat := 1024 * 1024
def Overlap : Nat := 4096

/-- The window loop over a region that can be read, from `Offset` on. -/
def find_windows (Start : Nat) (Region : List UInt8) (Options : SMemOptions) (RegExp : List UInt8 → Bool) (Offset : Nat) : List CStringInfo :=
  if Offset < Region.length then
    let Block := (Region.drop Offset).take WindowSize
    ScanBlock ⟨Block, Start + Offset, Start, Region.length⟩ Options RegExp ++
      if Block.length < WindowSize then [] else find_windows Start Region Options RegExp (Offset + (WindowSize - Overlap))
  else []
termination_by Region.length - Offset
decreasing_by simp only [WindowSize, Overlap]; omega

/-- What is found in one region, its `Batch`es one after the other. -/
def FindStrings (Start : Nat) (Region : List UInt8) (Options : SMemOptions) (RegExp : List UInt8 → Bool) : List CStringInfo :=
  find_windows Start Region Options RegExp 0

/-! ## What a region holds -/

/-- The byte is a character. -/
def Ascii (Region : List UInt8) (i : Nat) : Prop := IsPrintable (Region.getD i 0) = true

/-- The unit of two bytes is a character. -/
def Wide (Region : List UInt8) (u : Nat) : Prop := IsPrintable (Region.getD (2 * u) 0) = true ∧ Region.getD (2 * u + 1) 0 = 0

instance (Region : List UInt8) : DecidablePred (Ascii Region) := fun _ => inferInstanceAs (Decidable (_ = true))
instance (Region : List UInt8) : DecidablePred (Wide Region) := fun _ => inferInstanceAs (Decidable (_ ∧ _))

/-- The units from `first` on and before `last`, read `shift` bytes later. -/
def string_info (Start : Nat) (Region : List UInt8) (Stride shift : Nat) (run : Nat × Nat) : CStringInfo :=
  ⟨Start + (run.1 * Stride + shift), (run.2 - run.1) * Stride, Start, Region.length,
    (List.range (run.2 - run.1)).map fun i => Region.getD (run.1 * Stride + shift + i * Stride) 0⟩

/-- The strings of a region: its maximal runs of characters, of one byte or of two, that are long enough. -/
def Expected (Start : Nat) (Region : List UInt8) (Options : SMemOptions) (info : CStringInfo) : Prop :=
  (∃ run, (MaximalRun (Ascii Region) 0 Region.length run.1 run.2 ∧ min_length Options ≤ run.2 - run.1) ∧
      string_info Start Region 1 0 run = info) ∨
    Options.Unicode = true ∧ ∃ run, (MaximalRun (Wide Region) 0 (Region.length / 2) run.1 run.2 ∧ min_length Options ≤ run.2 - run.1) ∧
      string_info Start Region 2 0 run = info

/-- The windows of a region: where they start and how many bytes they have. -/
def windows (RegionSize Offset : Nat) : List (Nat × Nat) :=
  if Offset < RegionSize then
    (Offset, min WindowSize (RegionSize - Offset)) ::
      if min WindowSize (RegionSize - Offset) < WindowSize then [] else windows RegionSize (Offset + (WindowSize - Overlap))
  else []
termination_by RegionSize - Offset
decreasing_by simp only [WindowSize, Overlap]; omega

/-- A window in units of two bytes. -/
def halved (window : Nat × Nat) : Nat × Nat := (window.1 / 2, window.2 / 2)

/-- The windows separate the strings, and no string of two-byte units ends with the units of a window of an odd size. -/
def Clean (Region : List UInt8) (Options : SMemOptions) : Prop :=
  Separated (Ascii Region) (min_length Options) 0 Region.length (windows Region.length 0) ∧
    (Options.Unicode = true →
      Separated (Wide Region) (min_length Options) 0 (Region.length / 2) ((windows Region.length 0).map halved) ∧
        ∀ window ∈ windows Region.length 0, window.2 % 2 = 1 → ∀ first last,
          MaximalRun (Wide Region) 0 (Region.length / 2) first last → min_length Options ≤ shared (first, last) (halved window) →
            last < (window.1 + window.2) / 2)

/-! ## The loops as passes -/

theorem ascii_loop_eq (emit : Nat → Nat → List CStringInfo) {Region : List UInt8} (MinLength Size o : Nat) (rest : List UInt8) (i Run : Nat)
    (h : Run ≤ i) (size : i + rest.length = Size) (bytes : ∀ k < rest.length, rest.getD k 0 = Region.getD (o + i + k) 0) :
    ascii_loop emit MinLength Size rest i Run =
      (scan (Ascii Region) MinLength rest.length (o + i) Run).flatMap fun run => emit (run.1 - o) (run.2 - run.1) := by
  induction rest generalizing i Run with
  | nil =>
    have e : i = Size := size
    subst e
    simp only [ascii_loop, List.length_nil, scan]
    split_ifs with long
    · rw [List.flatMap_singleton, show o + i - Run - o = i - Run by omega, show o + i - (o + i - Run) = Run by omega]
    · rfl
  | cons c rest ih =>
    have first : c = Region.getD (o + i) 0 := bytes 0 (by simp)
    have later (Run : Nat) (h : Run ≤ i + 1) := ih (i + 1) Run h (by simp only [List.length_cons] at size; omega) fun k inside => by
      have byte := bytes (k + 1) (by simp only [List.length_cons]; omega)
      rw [show o + (i + 1) + k = o + i + (k + 1) by omega]
      exact byte
    have char : IsPrintable c = true ↔ Ascii Region (o + i) := by rw [first, Ascii]
    simp only [ascii_loop, List.length_cons, scan]
    by_cases here : Ascii Region (o + i)
    · rw [if_pos (char.mpr here), if_pos here, later _ (by omega)]
      rfl
    · rw [if_neg (fun e => here (char.mp e)), if_neg here, later 0 (by omega), List.flatMap_append]
      split_ifs with long
      · rw [List.flatMap_singleton, show o + i - Run - o = i - Run by omega, show o + i - (o + i - Run) = Run by omega]
        rfl
      · rfl

/-- How far the last string of a block of an odd size is from where it is reported. -/
def slip (o Size last : Nat) : Nat := if last = o + Size / 2 then Size % 2 else 0

theorem unicode_loop_eq (emit : Nat → Nat → List CStringInfo) {Region : List UInt8} (MinLength Size o : Nat) (rest : List UInt8) (i Run : Nat)
    (h : Run ≤ i / 2) (even : i % 2 = 0) (size : i + rest.length = Size)
    (bytes : ∀ k < rest.length, rest.getD k 0 = Region.getD (2 * o + i + k) 0) :
    unicode_loop emit MinLength Size rest i Run =
      (scan (Wide Region) MinLength (rest.length / 2) (o + i / 2) Run).flatMap fun run =>
        emit ((run.1 - o) * 2 + slip o Size run.2) (run.2 - run.1) := by
  have done (j : Nat) (hj : j % 2 = 0) (Run : Nat) (h : Run ≤ j / 2) (last : j / 2 = Size / 2) (odd : Size = j + Size % 2) :
      (if MinLength ≤ Run then emit (Size - Run * 2) Run else []) =
        (scan (Wide Region) MinLength 0 (o + j / 2) Run).flatMap fun run =>
          emit ((run.1 - o) * 2 + slip o Size run.2) (run.2 - run.1) := by
    rw [scan]
    split_ifs with long
    · rw [List.flatMap_singleton, slip, if_pos (by rw [last]), show o + j / 2 - (o + j / 2 - Run) = Run by omega,
        show (o + j / 2 - Run - o) * 2 + Size % 2 = Size - Run * 2 by omega]
    · rfl
  rcases rest with _ | ⟨c, _ | ⟨z, rest⟩⟩
  · simp only [List.length_nil] at size
    exact done i even Run h (by omega) (by omega)
  · simp only [List.length_singleton] at size
    simp only [unicode_loop]
    rw [show [c].length / 2 = 0 by simp]
    exact done i even Run h (by omega) (by omega)
  · simp only [List.length_cons] at size bytes
    have first : c = Region.getD (2 * (o + i / 2)) 0 := by
      have byte := bytes 0 (by omega)
      rwa [show 2 * o + i + 0 = 2 * (o + i / 2) by omega] at byte
    have second : z = Region.getD (2 * (o + i / 2) + 1) 0 := by
      have byte := bytes 1 (by omega)
      rwa [show 2 * o + i + 1 = 2 * (o + i / 2) + 1 by omega] at byte
    have later (Run : Nat) (h : Run ≤ (i + 2) / 2) := unicode_loop_eq emit MinLength Size o rest (i + 2) Run h (by omega) (by omega)
      fun k inside => by
        have byte := bytes (k + 2) (by omega)
        rw [show 2 * o + (i + 2) + k = 2 * o + i + (k + 2) by omega]
        exact byte
    have char : (IsPrintable c && z == 0) = true ↔ Wide Region (o + i / 2) := by
      rw [first, second, Wide, Bool.and_eq_true, beq_iff_eq]
    have half : (rest.length + 1 + 1) / 2 = rest.length / 2 + 1 := by omega
    have next : o + (i + 2) / 2 = o + i / 2 + 1 := by omega
    simp only [unicode_loop, List.length_cons, half, scan]
    by_cases here : Wide Region (o + i / 2)
    · rw [if_pos (char.mpr here), if_pos here, later _ (by omega), next]
    · rw [if_neg (fun e => here (char.mp e)), if_neg here, later 0 (by omega), next, List.flatMap_append]
      split_ifs with long
      · rw [List.flatMap_singleton, slip, if_neg (by omega), show o + i / 2 - (o + i / 2 - Run) = Run by omega,
          show (o + i / 2 - Run - o) * 2 + 0 = i - Run * 2 by omega]
      · rfl

/-! ## The windows -/

theorem windows_from (RegionSize Offset : Nat) (even : Offset % 2 = 0) :
    ∀ window ∈ windows RegionSize Offset, Offset ≤ window.1 ∧ window.1 % 2 = 0 ∧ window.1 < RegionSize ∧
      window.2 = min WindowSize (RegionSize - window.1) := by
  induction Offset using windows.induct RegionSize with
  | case1 Offset more ih =>
    intro window member
    rw [windows, if_pos more] at member
    rcases List.mem_cons.mp member with rfl | later
    · exact ⟨le_refl _, even, more, rfl⟩
    · split_ifs at later with ends
      · simp at later
      · have next := ih (by simp only [WindowSize, Overlap]; omega) window later
        simp only [WindowSize, Overlap] at next ⊢
        omega
  | case2 Offset done =>
    rw [windows, if_neg done]
    simp

theorem windows_increase (RegionSize Offset : Nat) (even : Offset % 2 = 0) :
    (windows RegionSize Offset).Pairwise fun a b => a.1 + 2 ≤ b.1 := by
  induction Offset using windows.induct RegionSize with
  | case1 Offset more ih =>
    have next_even : (Offset + (WindowSize - Overlap)) % 2 = 0 := by
      simp only [WindowSize, Overlap]
      omega
    rw [windows, if_pos more]
    split_ifs with ends
    · simp
    · refine List.Pairwise.cons (fun b later => ?_) (ih next_even)
      have next := (windows_from RegionSize _ next_even b later).1
      simp only [WindowSize, Overlap] at next ⊢
      omega
  | case2 Offset done =>
    rw [windows, if_neg done]
    exact .nil

/-- The block of a window. -/
def block (Start : Nat) (Region : List UInt8) (Offset : Nat) : SBlock :=
  ⟨(Region.drop Offset).take WindowSize, Start + Offset, Start, Region.length⟩

theorem find_windows_eq (Start : Nat) (Region : List UInt8) (Options : SMemOptions) (RegExp : List UInt8 → Bool) (Offset : Nat) :
    find_windows Start Region Options RegExp Offset =
      (windows Region.length Offset).flatMap fun window => ScanBlock (block Start Region window.1) Options RegExp := by
  induction Offset using windows.induct Region.length with
  | case1 Offset more ih =>
    have size : ((Region.drop Offset).take WindowSize).length = min WindowSize (Region.length - Offset) := by
      rw [List.length_take, List.length_drop]
    rw [find_windows, windows, if_pos more, if_pos more, List.flatMap_cons]
    simp only [size]
    split_ifs with ends
    · rfl
    · rw [ih]
      rfl
  | case2 Offset done => rw [find_windows, windows, if_neg done, if_neg done, List.flatMap_nil]

/-! ## What a window reports -/

theorem min_length_pos (Options : SMemOptions) : 0 < min_length Options := by
  rw [min_length]
  split_ifs <;> omega

theorem block_getD (Region : List UInt8) (Offset k : Nat) (inside : k < WindowSize) :
    ((Region.drop Offset).take WindowSize).getD k 0 = Region.getD (Offset + k) 0 := by
  rw [List.getD_eq_getElem?_getD, List.getD_eq_getElem?_getD, List.getElem?_take_of_lt inside, List.getElem?_drop]

/-- Every text is reported. -/
def every (_ : List UInt8) : Bool := true

theorem emit_eq (Start : Nat) (Region : List UInt8) (Offset Stride shift : Nat) (run : Nat × Nat) (from_start : Offset ≤ run.1 * Stride)
    (short : ∀ i < run.2 - run.1, run.1 * Stride - Offset + shift + i * Stride < WindowSize) :
    Emit every (block Start Region Offset) (run.1 * Stride - Offset + shift) (run.2 - run.1) Stride =
      [string_info Start Region Stride shift run] := by
  have text : (List.range (run.2 - run.1)).map (fun i => ((Region.drop Offset).take WindowSize).getD (run.1 * Stride - Offset + shift + i * Stride) 0) =
      (List.range (run.2 - run.1)).map fun i => Region.getD (run.1 * Stride + shift + i * Stride) 0 := by
    refine List.map_congr_left fun i inside => ?_
    rw [block_getD _ _ _ (short i (List.mem_range.mp inside))]
    congr 1
    omega
  simp only [Emit, every, if_true, block, text, string_info]
  congr 2
  omega

theorem scan_block_eq (Start : Nat) (Region : List UInt8) (Options : SMemOptions) {window : Nat × Nat}
    (member : window ∈ windows Region.length 0) :
    ScanBlock (block Start Region window.1) Options every =
      (scan (Ascii Region) (min_length Options) window.2 window.1 0).map (string_info Start Region 1 0) ++
        if Options.Unicode then
          (scan (Wide Region) (min_length Options) (halved window).2 (halved window).1 0).map
            fun run => string_info Start Region 2 (slip (window.1 / 2) window.2 run.2) run
        else [] := by
  obtain ⟨-, even, inside, size⟩ := windows_from Region.length 0 rfl window member
  have length : (block Start Region window.1).Data.length = window.2 := by
    rw [block, List.length_take, List.length_drop, size]
  have small : window.2 ≤ WindowSize := by
    rw [size]
    exact min_le_left _ _
  have positive := min_length_pos Options
  have singles {f : Nat × Nat → List CStringInfo} {g : Nat × Nat → CStringInfo} {l : List (Nat × Nat)} (h : ∀ run ∈ l, f run = [g run]) :
      l.flatMap f = l.map g := by
    rw [List.map_eq_flatMap, List.flatMap_def, List.flatMap_def, List.map_congr_left h]
  have ascii := @ascii_loop_eq (fun Start' Run => Emit every (block Start Region window.1) Start' Run 1) Region (min_length Options) window.2
    window.1 (block Start Region window.1).Data 0 0 (le_refl 0) (by rw [length]; omega) fun k hk =>
      block_getD Region window.1 k (by omega)
  have wide := @unicode_loop_eq (fun Start' Run => Emit every (block Start Region window.1) Start' Run 2) Region (min_length Options) window.2
    (window.1 / 2) (block Start Region window.1).Data 0 0 (le_refl 0) rfl (by rw [length]; omega) fun k hk => by
      rw [show 2 * (window.1 / 2) + 0 + k = window.1 + k by omega]
      exact block_getD Region window.1 k (by omega)
  rw [length, Nat.add_zero] at ascii wide
  rw [ScanBlock, length, ascii, wide, halved]
  congr 1
  · refine singles fun run found => ?_
    have piece : MaximalRun (Ascii Region) window.1 (window.1 + window.2) run.1 run.2 := ((mem_piece positive).mp found).1
    have low := piece.low
    have high := piece.high
    have emitted := emit_eq Start Region window.1 1 0 run (by omega) (by omega)
    rwa [Nat.mul_one, Nat.add_zero] at emitted
  · split_ifs
    · refine singles fun run found => ?_
      have piece : MaximalRun (Wide Region) (window.1 / 2) (window.1 / 2 + window.2 / 2) run.1 run.2 :=
        ((@mem_piece _ _ _ positive run (window.1 / 2, window.2 / 2)).mp found).1
      have low := piece.low
      have high := piece.high
      have emitted := emit_eq Start Region window.1 2 (slip (window.1 / 2) window.2 run.2) run (by omega) fun i hi => by
        rw [slip]
        split_ifs <;> omega
      rwa [show run.1 * 2 - window.1 = (run.1 - window.1 / 2) * 2 by omega] at emitted
    · rfl

/-! ## What is expected -/

/-- Characters of one byte in a row. -/
def AsciiRow (Region : List UInt8) (run : Nat × Nat) : Prop := run.1 < run.2 ∧ ∀ i, run.1 ≤ i → i < run.2 → Ascii Region i

/-- Characters of two bytes in a row. -/
def WideRow (Region : List UInt8) (run : Nat × Nat) : Prop := run.1 < run.2 ∧ ∀ i, run.1 ≤ i → i < run.2 → Wide Region i

theorem not_printable_zero : IsPrintable 0 = false := by decide

variable {Region : List UInt8}

theorem ascii_info_inj {Start : Nat} {run run' : Nat × Nat} (row : run.1 < run.2) (row' : run'.1 < run'.2)
    (h : string_info Start Region 1 0 run = string_info Start Region 1 0 run') : run = run' := by
  simp only [string_info, CStringInfo.mk.injEq] at h
  exact Prod.ext (by omega) (by omega)

theorem wide_info_inj {Start : Nat} {run run' : Nat × Nat} (row : run.1 < run.2) (row' : run'.1 < run'.2)
    (h : string_info Start Region 2 0 run = string_info Start Region 2 0 run') : run = run' := by
  simp only [string_info, CStringInfo.mk.injEq] at h
  exact Prod.ext (by omega) (by omega)

theorem ascii_ne_wide {Start : Nat} {run run' : Nat × Nat} {shift : Nat} (row : AsciiRow Region run)
    (row' : WideRow Region run') (slight : shift ≤ 1) :
    string_info Start Region 1 0 run ≠ string_info Start Region 2 shift run' := by
  intro h
  simp only [string_info, CStringInfo.mk.injEq] at h
  obtain ⟨address, size, -⟩ := h
  have some := row'.1
  have zero := (row'.2 run'.1 (le_refl _) some).2
  have char := row.2 (2 * run'.1 + 1) (by omega) (by omega)
  rw [Ascii, zero, not_printable_zero] at char
  exact Bool.false_ne_true char

theorem slipped_ne {Start : Nat} {run run' : Nat × Nat} :
    string_info Start Region 2 1 run ≠ string_info Start Region 2 0 run' := by
  intro h
  simp only [string_info, CStringInfo.mk.injEq] at h
  have address := h.1
  omega

/-! ## The strings that are found -/

theorem ascii_exact (Start : Nat) (Region : List UInt8) (Options : SMemOptions) :
    Exact ((windows Region.length 0).flatMap fun window =>
        (scan (Ascii Region) (min_length Options) window.2 window.1 0).map (string_info Start Region 1 0))
      (fun info => ∃ run, (MaximalRun (Ascii Region) 0 Region.length run.1 run.2 ∧ min_length Options ≤ run.2 - run.1) ∧
        string_info Start Region 1 0 run = info) ↔
    Separated (Ascii Region) (min_length Options) 0 Region.length (windows Region.length 0) := by
  have positive := min_length_pos Options
  have facts := windows_from Region.length 0 rfl
  have distinct : (windows Region.length 0).Nodup :=
    (windows_increase Region.length 0 rfl).imp fun {a b} later same => by
      rw [same] at later
      omega
  rw [← List.map_flatMap, exact_map (fun run => run.1 < run.2)]
  · exact exact_iff_separated positive distinct (fun _ _ => Nat.zero_le _) fun window member => by
      have := facts window member
      omega
  · intro run member
    obtain ⟨window, -, piece⟩ := List.mem_flatMap.mp member
    exact ((mem_piece positive).mp piece).1.nonempty
  · exact fun run h => h.1.nonempty
  · exact fun run run' => ascii_info_inj

/-- No string of a block is reported a byte too late. -/
def Unslipped (Region : List UInt8) (Options : SMemOptions) : Prop :=
  ∀ window ∈ windows Region.length 0, ∀ run ∈ scan (Wide Region) (min_length Options) (halved window).2 (halved window).1 0,
    slip (window.1 / 2) window.2 run.2 = 0

theorem halved_inside {RegionSize : Nat} : ∀ window ∈ windows RegionSize 0, (halved window).1 + (halved window).2 ≤ RegionSize / 2 ∧
    (halved window).1 + (halved window).2 = (window.1 + window.2) / 2 := by
  intro window member
  have := windows_from RegionSize 0 rfl window member
  simp only [halved]
  omega

theorem unslipped_iff (Region : List UInt8) (Options : SMemOptions) :
    Unslipped Region Options ↔ ∀ window ∈ windows Region.length 0, window.2 % 2 = 1 → ∀ first last,
      MaximalRun (Wide Region) 0 (Region.length / 2) first last → min_length Options ≤ shared (first, last) (halved window) →
        last < (window.1 + window.2) / 2 := by
  have positive := min_length_pos Options
  constructor
  · intro h window member odd first last run long
    obtain ⟨high, ends⟩ := halved_inside window member
    have piece := piece_of positive (Nat.zero_le _) high run long
    have kept := h window member _ piece
    rw [slip, ← show (halved window).1 + (halved window).2 = window.1 / 2 + window.2 / 2 from rfl] at kept
    split_ifs at kept with at_end
    · omega
    · omega
  · intro h window member run piece
    obtain ⟨high, ends⟩ := halved_inside window member
    obtain ⟨first, last, whole, -, long, rfl⟩ := of_piece positive (Nat.zero_le _) high piece
    rw [slip, ← show (halved window).1 + (halved window).2 = window.1 / 2 + window.2 / 2 from rfl]
    split_ifs with at_end
    · by_contra odd
      have early := h window member (by omega) first last whole long
      simp only [] at at_end
      omega
    · rfl

theorem wide_exact (Start : Nat) (Region : List UInt8) (Options : SMemOptions) :
    Exact ((windows Region.length 0).flatMap fun window =>
        (scan (Wide Region) (min_length Options) (halved window).2 (halved window).1 0).map
          fun run => string_info Start Region 2 (slip (window.1 / 2) window.2 run.2) run)
      (fun info => ∃ run, (MaximalRun (Wide Region) 0 (Region.length / 2) run.1 run.2 ∧ min_length Options ≤ run.2 - run.1) ∧
        string_info Start Region 2 0 run = info) ↔
    Separated (Wide Region) (min_length Options) 0 (Region.length / 2) ((windows Region.length 0).map halved) ∧ Unslipped Region Options := by
  have positive := min_length_pos Options
  have facts := windows_from Region.length 0 rfl
  have distinct : ((windows Region.length 0).map halved).Nodup := by
    refine List.pairwise_map.mpr ((windows_increase Region.length 0 rfl).imp fun {a b} later same => ?_)
    simp only [halved, Prod.mk.injEq] at same
    omega
  have unslipped_exact (kept : Unslipped Region Options) :
      Exact ((windows Region.length 0).flatMap fun window =>
          (scan (Wide Region) (min_length Options) (halved window).2 (halved window).1 0).map
            fun run => string_info Start Region 2 (slip (window.1 / 2) window.2 run.2) run)
        (fun info => ∃ run, (MaximalRun (Wide Region) 0 (Region.length / 2) run.1 run.2 ∧ min_length Options ≤ run.2 - run.1) ∧
          string_info Start Region 2 0 run = info) ↔
      Separated (Wide Region) (min_length Options) 0 (Region.length / 2) ((windows Region.length 0).map halved) := by
    have unshifted : ((windows Region.length 0).flatMap fun window =>
        (scan (Wide Region) (min_length Options) (halved window).2 (halved window).1 0).map
          fun run => string_info Start Region 2 (slip (window.1 / 2) window.2 run.2) run) =
        (((windows Region.length 0).map halved).flatMap fun window =>
          scan (Wide Region) (min_length Options) window.2 window.1 0).map (string_info Start Region 2 0) := by
      rw [List.map_flatMap, List.flatMap_map, List.flatMap_def, List.flatMap_def]
      congr 1
      refine List.map_congr_left fun window member => List.map_congr_left fun run piece => ?_
      rw [kept window member run piece]
    rw [unshifted, exact_map (fun run => run.1 < run.2)]
    · refine exact_iff_separated positive distinct (fun _ _ => Nat.zero_le _) fun window member => ?_
      obtain ⟨window, there, rfl⟩ := List.mem_map.mp member
      exact (halved_inside window there).1
    · intro run member
      obtain ⟨window, -, piece⟩ := List.mem_flatMap.mp member
      exact ((mem_piece positive).mp piece).1.nonempty
    · exact fun run h => h.1.nonempty
    · exact fun run run' => wide_info_inj
  constructor
  · intro exactly
    have kept : Unslipped Region Options := by
      intro window member run piece
      obtain ⟨run', -, same⟩ := (exactly.2 _).mp (List.mem_flatMap.mpr ⟨window, member, List.mem_map.mpr ⟨run, piece, rfl⟩⟩)
      by_contra late
      have one : slip (window.1 / 2) window.2 run.2 = 1 := by
        rw [slip] at late ⊢
        split_ifs at late ⊢ <;> omega
      rw [one] at same
      exact slipped_ne same.symm
    exact ⟨(unslipped_exact kept).mp exactly, kept⟩
  · rintro ⟨separated, kept⟩
    exact (unslipped_exact kept).mpr separated

theorem find_strings_eq (Start : Nat) (Region : List UInt8) (Options : SMemOptions) :
    FindStrings Start Region Options every = (windows Region.length 0).flatMap fun window =>
      (scan (Ascii Region) (min_length Options) window.2 window.1 0).map (string_info Start Region 1 0) ++
        if Options.Unicode then
          (scan (Wide Region) (min_length Options) (halved window).2 (halved window).1 0).map
            fun run => string_info Start Region 2 (slip (window.1 / 2) window.2 run.2) run
        else [] := by
  rw [FindStrings, find_windows_eq, List.flatMap_def, List.flatMap_def]
  congr 1
  exact List.map_congr_left fun window member => scan_block_eq Start Region Options member

/-- The windows give the strings of the region, each once, exactly where they cut none and show none twice. -/
theorem find_exact (Start : Nat) (Region : List UInt8) (Options : SMemOptions) :
    Exact (FindStrings Start Region Options every) (Expected Start Region Options) ↔ Clean Region Options := by
  have positive := min_length_pos Options
  rw [find_strings_eq, Clean, ← unslipped_iff]
  cases unicode : Options.Unicode with
  | false =>
    have expected (info : CStringInfo) : Expected Start Region Options info ↔
        ∃ run, (MaximalRun (Ascii Region) 0 Region.length run.1 run.2 ∧ min_length Options ≤ run.2 - run.1) ∧
          string_info Start Region 1 0 run = info := by
      rw [Expected, unicode]
      simp
    simp only [Bool.false_eq_true, if_false, List.append_nil, false_imp_iff, and_true]
    rw [exact_perm (List.Perm.refl _) expected, ascii_exact]
  | true =>
    have expected (info : CStringInfo) : Expected Start Region Options info ↔
        (∃ run, (MaximalRun (Ascii Region) 0 Region.length run.1 run.2 ∧ min_length Options ≤ run.2 - run.1) ∧
          string_info Start Region 1 0 run = info) ∨
        ∃ run, (MaximalRun (Wide Region) 0 (Region.length / 2) run.1 run.2 ∧ min_length Options ≤ run.2 - run.1) ∧
          string_info Start Region 2 0 run = info := by
      rw [Expected, unicode]
      simp
    simp only [if_true, true_imp_iff]
    rw [exact_perm (List.flatMap_append_perm _ _ _).symm expected,
      exact_append (fun info => ∃ run, AsciiRow Region run ∧ string_info Start Region 1 0 run = info), ascii_exact, wide_exact]
    · intro info member
      obtain ⟨window, -, here⟩ := List.mem_flatMap.mp member
      obtain ⟨run, piece, rfl⟩ := List.mem_map.mp here
      have maximal := ((mem_piece positive).mp piece).1
      exact ⟨run, ⟨maximal.nonempty, maximal.all⟩, rfl⟩
    · rintro info member ⟨run', row, same⟩
      obtain ⟨window, -, here⟩ := List.mem_flatMap.mp member
      obtain ⟨run, piece, rfl⟩ := List.mem_map.mp here
      have maximal := ((mem_piece positive).mp piece).1
      refine ascii_ne_wide row ⟨maximal.nonempty, maximal.all⟩ ?_ same
      rw [slip]
      split_ifs <;> omega
    · rintro info ⟨run, ⟨maximal, -⟩, rfl⟩
      exact ⟨run, ⟨maximal.nonempty, maximal.all⟩, rfl⟩
    · rintro info ⟨run, ⟨maximal, -⟩, rfl⟩ ⟨run', row, same⟩
      exact ascii_ne_wide row ⟨maximal.nonempty, maximal.all⟩ (Nat.zero_le _) same

theorem windows_mebibyte : windows 1048576 0 = [(0, 1048576), (1044480, 4096)] := by
  rw [windows]
  simp only [WindowSize, Overlap]
  rw [windows]
  simp [WindowSize]

/-- One MiB of `A`s is one string, of which the last page is reported a second time. -/
theorem tail_reported_again : ¬ (∀ Start Region Options, Exact (FindStrings Start Region Options every) (Expected Start Region Options)) := by
  intro h
  obtain ⟨Region, is_region⟩ : ∃ Region : List UInt8, Region = List.replicate 1048576 65 := ⟨_, rfl⟩
  have size : Region.length = 1048576 := by rw [is_region, List.length_replicate]
  have char (i : Nat) (inside : i < 1048576) : Ascii Region i := by
    rw [Ascii, is_region, List.getD_eq_getElem?_getD, List.getElem?_replicate_of_lt inside]
    decide
  have piece : (1044480, 1048576) ∈ scan (Ascii Region) 4 4096 1044480 0 := by
    refine (@mem_piece _ _ _ (by decide) (1044480, 1048576) (1044480, 4096)).mpr ⟨?_, by decide⟩
    exact ⟨by decide, le_refl _, le_refl _, fun i _ below => char i below, .inl rfl, .inl rfl⟩
  have reported : string_info 0 Region 1 0 (1044480, 1048576) ∈ FindStrings 0 Region ⟨4, false⟩ every := by
    rw [find_strings_eq, size, windows_mebibyte]
    refine List.mem_flatMap.mpr ⟨(1044480, 4096), by simp, List.mem_append_left _ ?_⟩
    exact List.mem_map.mpr ⟨_, piece, rfl⟩
  rcases ((h 0 Region ⟨4, false⟩).2 _).mp reported with ⟨run, ⟨maximal, -⟩, same⟩ | ⟨wide, -⟩
  · have e := ascii_info_inj maximal.nonempty (by decide) same
    rw [e] at maximal
    rcases maximal.left with start | stop
    · exact absurd start (by decide)
    · exact stop (char _ (by decide))
  · exact Bool.false_ne_true wide

end TaskExplorer.StringFinder
