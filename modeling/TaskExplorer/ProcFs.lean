import TaskExplorer.ByteText

/-!
# The records of `/proc`

What the kernel writes into `stat` and `maps` of a process, and what is read of it. The name of
a process and the path of a mapping are texts of the process.
-/

namespace TaskExplorer.ProcFs
open ByteText

/-! ## What the kernel writes -/

/-- The values of `/proc/<pid>/stat`, of the types that they are printed as. -/
structure TaskStat where
  pid : UInt64
  comm : List Char
  state : UInt8
  letter : 65 ≤ state ∧ state ≤ 122
  ppid : Int32
  pgrp : Int32
  session : Int32
  tty_nr : Int32
  tpgid : Int32
  flags : UInt32
  min_flt : UInt64
  cmin_flt : UInt64
  maj_flt : UInt64
  cmaj_flt : UInt64
  utime : UInt64
  stime : UInt64
  cutime : Int64
  cstime : Int64
  priority : Int64
  nice : Int64
  num_threads : Int64
  start_time : UInt64
  vsize : UInt64
  rss : Int64
  rsslim : UInt64
  start_code : UInt64
  end_code : UInt64
  start_stack : UInt64
  kstkesp : UInt64
  kstkeip : UInt64
  signal : UInt64
  blocked : UInt64
  sigignore : UInt64
  sigcatch : UInt64
  wchan : UInt64
  exit_signal : Int32
  processor : Int32
  rt_priority : UInt32
  policy : UInt32
  delayacct_blkio_ticks : UInt64
  guest_time : UInt64
  cguest_time : Int64
  start_data : UInt64
  end_data : UInt64
  start_brk : UInt64
  arg_start : UInt64
  arg_end : UInt64
  env_start : UInt64
  env_end : UInt64
  exit_code : Int32

/-- The numbers behind the state. -/
def stat_values (task : TaskStat) : List Int :=
  [task.ppid.toInt, task.pgrp.toInt, task.session.toInt, task.tty_nr.toInt, task.tpgid.toInt, (task.flags.toNat : Int),
    (task.min_flt.toNat : Int), (task.cmin_flt.toNat : Int), (task.maj_flt.toNat : Int), (task.cmaj_flt.toNat : Int),
    (task.utime.toNat : Int), (task.stime.toNat : Int), task.cutime.toInt, task.cstime.toInt, task.priority.toInt, task.nice.toInt,
    task.num_threads.toInt, 0, (task.start_time.toNat : Int), (task.vsize.toNat : Int), task.rss.toInt, (task.rsslim.toNat : Int),
    (task.start_code.toNat : Int), (task.end_code.toNat : Int), (task.start_stack.toNat : Int), (task.kstkesp.toNat : Int),
    (task.kstkeip.toNat : Int), (task.signal.toNat : Int), (task.blocked.toNat : Int), (task.sigignore.toNat : Int),
    (task.sigcatch.toNat : Int), (task.wchan.toNat : Int), 0, 0, task.exit_signal.toInt, task.processor.toInt,
    (task.rt_priority.toNat : Int), (task.policy.toNat : Int), (task.delayacct_blkio_ticks.toNat : Int), (task.guest_time.toNat : Int),
    task.cguest_time.toInt, (task.start_data.toNat : Int), (task.end_data.toNat : Int), (task.start_brk.toNat : Int),
    (task.arg_start.toNat : Int), (task.arg_end.toNat : Int), (task.env_start.toNat : Int), (task.env_end.toNat : Int),
    task.exit_code.toInt]

/-- The fields behind the name. -/
def stat_words (task : TaskStat) : List Bytes := [task.state] :: (stat_values task).map decimal

/-- The name. Some kernels write a newline and a backslash as escapes, others as they are. -/
def task_name (escapes : Bool) (comm : List Char) : List Char :=
  if escapes then comm.flatMap fun c => if c = '\n' then ['\\', 'n'] else if c = '\\' then ['\\', '\\'] else [c] else comm

def stat_line (escapes : Bool) (task : TaskStat) : Bytes :=
  decimal task.pid.toNat ++ 32 :: 40 :: (toUtf8 (task_name escapes task.comm) ++ 41 :: 32 :: ([32].intercalate (stat_words task) ++ [10]))

/-- A mapping, as it is printed and as it is read. -/
structure SMapEntry where
  Start : UInt64
  End : UInt64
  Read : Bool
  Write : Bool
  Exec : Bool
  Shared : Bool
  Offset : UInt64
  DevMajor : UInt32
  DevMinor : UInt32
  Inode : UInt64
  Path : List Char
deriving DecidableEq

/-- The fields in front of the path. -/
def map_words (entry : SMapEntry) : List Bytes :=
  [padded 16 8 entry.Start.toNat ++ 45 :: padded 16 8 entry.End.toNat,
    [if entry.Read then 114 else 45, if entry.Write then 119 else 45, if entry.Exec then 120 else 45, if entry.Shared then 115 else 112],
    padded 16 8 entry.Offset.toNat, padded 16 2 entry.DevMajor.toNat ++ 58 :: padded 16 2 entry.DevMinor.toNat, text 10 entry.Inode.toNat]

/-- One line of `/proc/<pid>/maps`: a path stands behind 73 columns. -/
def map_line (entry : SMapEntry) : Bytes :=
  let front := [32].intercalate (map_words entry) ++ [32]
  if entry.Path = [] then front else front ++ List.replicate (72 - front.length) 32 ++ [32] ++ toUtf8 entry.Path

def maps_text (entries : List SMapEntry) : Bytes := entries.flatMap fun entry => map_line entry ++ [10]

/-! ## What is read -/

def index_of (c : UInt8) (Data : Bytes) : Option Nat := Data.findIdx? (· == c)

def last_index_of (c : UInt8) (Data : Bytes) : Option Nat := (index_of c Data.reverse).map fun i => Data.length - 1 - i

def trimmed (Data : Bytes) : Bytes := (Data.dropWhile is_space).rdropWhile is_space

structure SStat where
  Pid : Nat := 0
  Comm : List Char := []
  State : UInt8 := 0
  PPid : Nat := 0
  PGrp : Nat := 0
  Session : Nat := 0
  TtyNr : Nat := 0
  TPGid : Nat := 0
  Flags : Nat := 0
  MinFlt : Nat := 0
  CMinFlt : Nat := 0
  MajFlt : Nat := 0
  CMajFlt : Nat := 0
  UTime : Nat := 0
  STime : Nat := 0
  CUTime : Int := 0
  CSTime : Int := 0
  Priority : Int := 0
  Nice : Int := 0
  NumThreads : Int := 0
  StartTime : Nat := 0
  VSize : Nat := 0
  Rss : Int := 0
  RssLim : Nat := 0
  StartCode : Nat := 0
  EndCode : Nat := 0
  StartStack : Nat := 0
  KstkEsp : Nat := 0
  KstkEip : Nat := 0
  Processor : Nat := 0
  RtPriority : Nat := 0
  Policy : Nat := 0
  DelayAcctBlkIOTicks : Nat := 0
  GuestTime : Nat := 0
  IsKernelThread : Bool := false
  Valid : Bool := false

def U64 (F : List Bytes) (i : Nat) : Nat := (F[i]?.bind (to_unsigned (2 ^ 64) 10)).getD 0
def I64 (F : List Bytes) (i : Nat) : Int := (F[i]?.bind to_signed).getD 0

def PF_KTHREAD : Nat := 0x00200000

/-- The record of the fields. -/
def read_fields (Pid : Nat) (Comm : List Char) (F : List Bytes) : SStat where
  Pid := Pid
  Comm := Comm
  State := (F.headD []).headD 0
  PPid := U64 F 1
  PGrp := U64 F 2
  Session := U64 F 3
  TtyNr := U64 F 4
  TPGid := U64 F 5
  Flags := U64 F 6
  MinFlt := U64 F 7
  CMinFlt := U64 F 8
  MajFlt := U64 F 9
  CMajFlt := U64 F 10
  UTime := U64 F 11
  STime := U64 F 12
  CUTime := I64 F 13
  CSTime := I64 F 14
  Priority := I64 F 15
  Nice := I64 F 16
  NumThreads := I64 F 17
  StartTime := U64 F 19
  VSize := U64 F 20
  Rss := I64 F 21
  RssLim := U64 F 22
  StartCode := U64 F 23
  EndCode := U64 F 24
  StartStack := U64 F 25
  KstkEsp := U64 F 26
  KstkEip := U64 F 27
  Processor := U64 F 36
  RtPriority := U64 F 37
  Policy := U64 F 38
  DelayAcctBlkIOTicks := U64 F 39
  GuestTime := U64 F 40
  IsKernelThread := decide (U64 F 6 &&& PF_KTHREAD ≠ 0)
  Valid := true

def ParseStat (Data : Bytes) : SStat :=
  match index_of 40 Data, last_index_of 41 Data with
  | some Open, some Close =>
    if Close < Open then {}
    else
      match to_unsigned (2 ^ 64) 10 (trimmed (Data.take Open)) with
      | none => {}
      | some Pid =>
        let Comm := fromUtf8 ((Data.drop (Open + 1)).take (Close - Open - 1))
        let F := (simplified is_space 32 (Data.drop (Close + 1))).splitOn 32
        if F.headD [] = [] then { Pid := Pid, Comm := Comm } else read_fields Pid Comm F
  | _, _ => {}

/-- `left(i)` and `mid(i + 1)` at the first of a character. -/
def cut (c : UInt8) (Data : Bytes) : Option (Bytes × Bytes) := (index_of c Data).map fun i => (Data.take i, Data.drop (i + 1))

def hex (limit : Nat) (Data : Bytes) : Nat := (to_unsigned limit 16 Data).getD 0

def parse_map (Line : Bytes) : Option SMapEntry :=
  let F := (simplified is_space 32 Line).splitOn 32
  if Line = [] ∨ F.length < 5 then none
  else
    match cut 45 (F.getD 0 []) with
    | none => none
    | some (Start, End) =>
      let perms := if 4 ≤ (F.getD 1 []).length then F.getD 1 [] else []
      let dev := (cut 58 (F.getD 3 [])).getD ([], [])
      some
        { Start := (hex (2 ^ 64) Start).toUInt64
          End := (hex (2 ^ 64) End).toUInt64
          Read := perms.getD 0 0 == 114
          Write := perms.getD 1 0 == 119
          Exec := perms.getD 2 0 == 120
          Shared := perms.getD 3 0 == 115
          Offset := (hex (2 ^ 64) (F.getD 2 [])).toUInt64
          DevMajor := (hex (2 ^ 32) dev.1).toUInt32
          DevMinor := (hex (2 ^ 32) dev.2).toUInt32
          Inode := ((to_unsigned (2 ^ 64) 10 (F.getD 4 [])).getD 0).toUInt64
          Path := if 5 < F.length then fromUtf8 ([32].intercalate (F.drop 5)) else [] }

def ParseMaps (Data : Bytes) : List SMapEntry := (Data.splitOn 10).filterMap parse_map

/-! ## What is wanted -/

/-- `stat` gives the name and the values back. -/
def StatRead (escapes : Bool) (task : TaskStat) : Prop :=
  let Stat := ParseStat (stat_line escapes task)
  Stat.Valid = true ∧ Stat.Pid = task.pid.toNat ∧ Stat.Comm = task.comm ∧ Stat.State = task.state ∧
    ((Stat.PPid : Int) = task.ppid.toInt ∧ (Stat.PGrp : Int) = task.pgrp.toInt ∧ (Stat.Session : Int) = task.session.toInt ∧
      (Stat.TtyNr : Int) = task.tty_nr.toInt ∧ (Stat.TPGid : Int) = task.tpgid.toInt ∧ (Stat.Processor : Int) = task.processor.toInt) ∧
    (Stat.Flags = task.flags.toNat ∧ Stat.MinFlt = task.min_flt.toNat ∧ Stat.CMinFlt = task.cmin_flt.toNat ∧ Stat.MajFlt = task.maj_flt.toNat ∧
      Stat.CMajFlt = task.cmaj_flt.toNat ∧ Stat.UTime = task.utime.toNat ∧ Stat.STime = task.stime.toNat ∧
      Stat.StartTime = task.start_time.toNat ∧ Stat.VSize = task.vsize.toNat ∧ Stat.RssLim = task.rsslim.toNat ∧
      Stat.StartCode = task.start_code.toNat ∧ Stat.EndCode = task.end_code.toNat ∧ Stat.StartStack = task.start_stack.toNat ∧
      Stat.KstkEsp = task.kstkesp.toNat ∧ Stat.KstkEip = task.kstkeip.toNat ∧ Stat.RtPriority = task.rt_priority.toNat ∧
      Stat.Policy = task.policy.toNat ∧ Stat.DelayAcctBlkIOTicks = task.delayacct_blkio_ticks.toNat ∧ Stat.GuestTime = task.guest_time.toNat) ∧
    (Stat.CUTime = task.cutime.toInt ∧ Stat.CSTime = task.cstime.toInt ∧ Stat.Priority = task.priority.toInt ∧ Stat.Nice = task.nice.toInt ∧
      Stat.NumThreads = task.num_threads.toInt ∧ Stat.Rss = task.rss.toInt) ∧
    Stat.IsKernelThread = decide (task.flags.toNat &&& PF_KTHREAD ≠ 0)

/-- The name is written as it is and begins with no byte order mark, and no number that is read without a sign has one. -/
def StatPlain (escapes : Bool) (task : TaskStat) : Prop :=
  (task.comm.head? ≠ some bom ∧ (escapes = true → '\n' ∉ task.comm ∧ '\\' ∉ task.comm)) ∧
    0 ≤ task.ppid.toInt ∧ 0 ≤ task.pgrp.toInt ∧ 0 ≤ task.session.toInt ∧ 0 ≤ task.tty_nr.toInt ∧ 0 ≤ task.tpgid.toInt ∧ 0 ≤ task.processor.toInt

instance (escapes : Bool) (task : TaskStat) : Decidable (StatPlain escapes task) := inferInstanceAs (Decidable (_ ∧ _))

/-- `maps` gives the mappings back. -/
def MapsRead (entries : List SMapEntry) : Prop := ParseMaps (maps_text entries) = entries

/-- The path has no blank but single spaces inside, and begins with no byte order mark. -/
def PathPlain (path : List Char) : Prop := simplified space_char ' ' path = path ∧ path.head? ≠ some bom

instance (path : List Char) : Decidable (PathPlain path) := inferInstanceAs (Decidable (_ ∧ _))

/-! ## Cutting -/

theorem index_of_append {c : UInt8} {left : Bytes} (h : c ∉ left) (right : Bytes) : index_of c (left ++ c :: right) = some left.length := by
  rw [index_of, List.findIdx?_append, List.findIdx?_eq_none_iff.mpr (fun d member => by
    simp only [beq_eq_false_iff_ne, ne_eq]
    exact fun e => h (e ▸ member)), List.findIdx?_cons]
  simp

theorem cut_append {c : UInt8} {left : Bytes} (h : c ∉ left) (right : Bytes) : cut c (left ++ c :: right) = some (left, right) := by
  rw [cut, index_of_append h]
  simp

theorem last_index_of_append {c : UInt8} {right : Bytes} (h : c ∉ right) (left : Bytes) :
    last_index_of c (left ++ c :: right) = some left.length := by
  have rev : (left ++ c :: right).reverse = right.reverse ++ c :: left.reverse := by simp
  rw [last_index_of, rev, index_of_append (by simpa using h)]
  simp only [Option.map_some, List.length_append, List.length_cons, List.length_reverse]
  congr 1
  omega

/-! ## Words of numbers -/

theorem padded_word {base : Nat} (h : base = 10 ∨ base = 16) (width n : Nat) : Word is_space (padded base width n) := by
  obtain ⟨nonempty, chars⟩ := padded_chars h width n
  refine ⟨nonempty, fun c member => ?_⟩
  rcases chars c member with ⟨low, high⟩ | ⟨low, high⟩
  all_goals
    simp only [UInt8.le_iff_toNat_le, UInt8.reduceToNat] at low high
    simp only [is_space, Bool.or_eq_false_iff, beq_eq_false_iff_ne, Bool.and_eq_false_iff, decide_eq_false_iff_not,
      UInt8.le_iff_toNat_le, UInt8.reduceToNat, ne_eq, ← UInt8.toNat_inj]
    omega

theorem not_mem_padded {base : Nat} (h : base = 10 ∨ base = 16) (width n : Nat) {c : UInt8} (other : c < 48 ∨ 57 < c ∧ c < 97) :
    c ∉ padded base width n := by
  intro member
  have bounds := (padded_chars h width n).2 c member
  simp only [UInt8.le_iff_toNat_le, UInt8.lt_iff_toNat_lt, UInt8.reduceToNat] at bounds other
  omega

theorem decimal_word (n : Int) : Word is_space (decimal n) := by
  have digits := padded_word (.inl rfl : 10 = 10 ∨ 10 = 16) 0 n.natAbs
  rw [← text_eq_padded] at digits
  rw [decimal]
  split_ifs
  · exact ⟨by simp, fun c member => by
      rcases List.mem_cons.mp member with rfl | later
      · decide
      · exact digits.2 c later⟩
  · exact digits

theorem not_mem_decimal (n : Int) {c : UInt8} (other : c < 45) : c ∉ decimal n := by
  have small : c < 48 := UInt8.lt_trans other (by decide)
  have digits := not_mem_padded (.inl rfl : 10 = 10 ∨ 10 = 16) 0 n.natAbs (.inl small)
  rw [← text_eq_padded] at digits
  rw [decimal]
  split_ifs
  · simp only [List.mem_cons, not_or]
    exact ⟨UInt8.ne_of_lt other, digits⟩
  · exact digits

/-! ## `stat` -/

theorem trimmed_word {word : Bytes} (h : Word is_space word) : trimmed (word ++ [32]) = word := by
  obtain ⟨c, rest, rfl⟩ := List.exists_cons_of_ne_nil h.1
  have first : is_space c = false := h.2 c (by simp)
  rw [trimmed, List.cons_append, List.dropWhile_cons_of_neg (by simp [first]), ← List.cons_append, List.rdropWhile_concat_pos _ _ _ (by decide)]
  rw [List.rdropWhile_eq_self_iff]
  intro nonempty
  have last := h.2 _ (List.getLast_mem nonempty)
  simp [last]

theorem state_plain (task : TaskStat) : Word is_space [task.state] ∧ 41 ≠ task.state := by
  have letter := task.letter
  simp only [UInt8.le_iff_toNat_le, UInt8.reduceToNat] at letter
  refine ⟨⟨by simp, fun c member => ?_⟩, fun e => ?_⟩
  · rw [List.mem_singleton.mp member]
    simp only [is_space, Bool.or_eq_false_iff, beq_eq_false_iff_ne, Bool.and_eq_false_iff, decide_eq_false_iff_not,
      UInt8.le_iff_toNat_le, UInt8.reduceToNat, ne_eq, ← UInt8.toNat_inj]
    omega
  · rw [← e] at letter
    exact absurd letter.1 (by decide)

theorem stat_words_plain (task : TaskStat) : ∀ word ∈ stat_words task, Word is_space word ∧ 41 ∉ word := by
  obtain ⟨state, other⟩ := state_plain task
  intro word member
  rcases List.mem_cons.mp member with rfl | number
  · exact ⟨state, by simpa using other⟩
  · obtain ⟨n, -, rfl⟩ := List.mem_map.mp number
    exact ⟨decimal_word n, not_mem_decimal n (by decide)⟩

theorem parse_stat_line (escapes : Bool) (task : TaskStat) :
    ParseStat (stat_line escapes task) = read_fields task.pid.toNat (fromUtf8 (toUtf8 (task_name escapes task.comm))) (stat_words task) := by
  have plain := stat_words_plain task
  obtain ⟨name, is_name⟩ : ∃ name, name = toUtf8 (task_name escapes task.comm) := ⟨_, rfl⟩
  obtain ⟨front, is_front⟩ : ∃ front, front = decimal task.pid.toNat ++ [32] := ⟨_, rfl⟩
  obtain ⟨tail, is_tail⟩ : ∃ tail, tail = 32 :: ([32].intercalate (stat_words task) ++ [10]) := ⟨_, rfl⟩
  have line : stat_line escapes task = front ++ 40 :: (name ++ 41 :: tail) := by
    rw [stat_line, is_front, is_name, is_tail, List.append_assoc]
    rfl
  have line' : stat_line escapes task = (front ++ 40 :: name) ++ 41 :: tail := by rw [line, List.append_assoc, List.cons_append]
  have opens : (40 : UInt8) ∉ front := by
    rw [is_front, List.mem_append, not_or]
    exact ⟨not_mem_decimal _ (by decide), by decide⟩
  have closes : (41 : UInt8) ∉ tail := by
    rw [is_tail]
    intro member
    rcases List.mem_cons.mp member with e | member
    · exact absurd e (by decide)
    · rcases List.mem_append.mp member with inside | last
      · rcases mem_intercalate inside with e | ⟨word, there, here⟩
        · exact absurd e (by decide)
        · exact (plain word there).2 here
      · exact absurd (List.mem_singleton.mp last) (by decide)
  have first := index_of_append opens (name ++ 41 :: tail)
  rw [← line] at first
  have last := last_index_of_append closes (front ++ 40 :: name)
  rw [← line'] at last
  have place : (front ++ 40 :: name).length = front.length + 1 + name.length := by
    rw [List.length_append, List.length_cons]
    omega
  have pid : to_unsigned (2 ^ 64) 10 (trimmed ((stat_line escapes task).take front.length)) = some task.pid.toNat := by
    rw [line, List.take_left, is_front, trimmed_word (decimal_word _), to_unsigned_decimal _ (by have := task.pid.toNat_lt; omega), if_pos (by omega)]
    rfl
  have comm : ((stat_line escapes task).drop (front.length + 1)).take (front.length + 1 + name.length - front.length - 1) = name := by
    have skip : (stat_line escapes task).drop (front.length + 1) = name ++ 41 :: tail := by
      rw [line, show front ++ 40 :: (name ++ 41 :: tail) = (front ++ [40]) ++ (name ++ 41 :: tail) by simp,
        List.drop_left' (by simp)]
    rw [skip, show front.length + 1 + name.length - front.length - 1 = name.length by omega, List.take_left]
  have rest : (simplified is_space 32 ((stat_line escapes task).drop (front.length + 1 + name.length + 1))).splitOn 32 = stat_words task := by
    have skip : (stat_line escapes task).drop (front.length + 1 + name.length + 1) = tail := by
      rw [line', show (front ++ 40 :: name) ++ 41 :: tail = ((front ++ 40 :: name) ++ [41]) ++ tail by simp,
        List.drop_left' (by rw [List.length_append, place]; rfl)]
    have read : words is_space tail = stat_words task := by
      rw [is_tail, words_cons _ (by decide), words_append_cons _ [] (by decide), words_nil, List.append_nil,
        words_intercalate (by decide) _ fun word member => (plain word member).1]
    rw [skip, simplified_split (by decide) (by rw [read]; simp [stat_words]), read]
  simp only [ParseStat, first, last, place]
  rw [if_neg (by omega), pid]
  simp only [comm, rest]
  rw [if_neg (by simp [stat_words]), is_name]

theorem U64_value {task : TaskStat} {i : Nat} {n : Int} (found : (stat_values task)[i]? = some n) (small : n < 2 ^ 64) :
    U64 (stat_words task) (i + 1) = if 0 ≤ n then n.toNat else 0 := by
  rw [U64, stat_words, List.getElem?_cons_succ, List.getElem?_map, found, Option.map_some, Option.bind_some,
    to_unsigned_decimal _ (by omega)]
  split_ifs <;> rfl

theorem U64_unsigned {task : TaskStat} {i n : Nat} (found : (stat_values task)[i]? = some (n : Int)) (small : n < 2 ^ 64) :
    U64 (stat_words task) (i + 1) = n := by
  rw [U64_value found (by omega), if_pos (by omega)]
  rfl

theorem U64_signed {task : TaskStat} {i : Nat} {n : Int} (found : (stat_values task)[i]? = some n) (small : n < 2 ^ 31) :
    (U64 (stat_words task) (i + 1) : Int) = n ↔ 0 ≤ n := by
  rw [U64_value found (by omega)]
  split_ifs <;> omega

theorem I64_value {task : TaskStat} {i : Nat} {n : Int} (found : (stat_values task)[i]? = some n) (low : -2 ^ 63 ≤ n) (high : n < 2 ^ 63) :
    I64 (stat_words task) (i + 1) = n := by
  rw [I64, stat_words, List.getElem?_cons_succ, List.getElem?_map, found, Option.map_some, Option.bind_some, to_signed_decimal low high]
  rfl

theorem escaped_ne (rest : List Char) : task_name true rest ≠ bom :: rest := by
  induction rest with
  | nil => simp [task_name]
  | cons c rest ih =>
    simp only [task_name, if_true, List.flatMap_cons] at ih ⊢
    split_ifs with newline backslash
    · exact fun e => absurd (List.cons.inj e).1 (by decide)
    · exact fun e => absurd (List.cons.inj e).1 (by decide)
    · intro e
      obtain ⟨rfl, same⟩ := List.cons.inj e
      exact ih same

theorem task_name_iff (escapes : Bool) (comm : List Char) : task_name escapes comm = comm ↔ (escapes = true → '\n' ∉ comm ∧ '\\' ∉ comm) := by
  cases escapes with
  | false => simp [task_name]
  | true =>
    simp only [true_imp_iff]
    have longer (rest : List Char) : rest.length ≤ (task_name true rest).length := by
      induction rest with
      | nil => simp [task_name]
      | cons c rest ih =>
        simp only [task_name, if_true, List.flatMap_cons, List.length_append, List.length_cons] at ih ⊢
        split_ifs <;> simp only [List.length_cons, List.length_nil] <;> omega
    induction comm with
    | nil => simp [task_name]
    | cons c rest ih =>
      have long := longer rest
      have more {escape : List Char} (two : escape.length = 2) : escape ++ task_name true rest ≠ c :: rest := by
        intro e
        have length := congrArg List.length e
        rw [List.length_append, List.length_cons] at length
        omega
      have unfold : task_name true (c :: rest) =
          (if c = '\n' then ['\\', 'n'] else if c = '\\' then ['\\', '\\'] else [c]) ++ task_name true rest := rfl
      rw [unfold]
      split_ifs with newline backslash
      · exact iff_of_false (more rfl) (by simp [newline])
      · exact iff_of_false (more rfl) (by simp [backslash])
      · rw [List.singleton_append, List.cons.injEq]
        simp [ih, Ne.symm newline, Ne.symm backslash]

theorem comm_iff (escapes : Bool) (comm : List Char) : fromUtf8 (toUtf8 (task_name escapes comm)) = comm ↔
    comm.head? ≠ some bom ∧ (escapes = true → '\n' ∉ comm ∧ '\\' ∉ comm) := by
  rw [fromUtf8_toUtf8]
  have head : (task_name escapes comm).head? = some bom ↔ comm.head? = some bom := by
    cases escapes with
    | false => simp [task_name]
    | true =>
      cases comm with
      | nil => simp [task_name]
      | cons c rest =>
        simp only [task_name, if_true, List.flatMap_cons]
        split_ifs with newline backslash
        · simp [newline, bom]
        · simp [backslash, bom]
        · simp
  split_ifs with marked
  · refine iff_of_false ?_ (fun h => h.1 (head.mp marked))
    obtain ⟨rest, rfl⟩ : ∃ rest, comm = bom :: rest := by
      cases comm with
      | nil => exact absurd (head.mp marked) (by simp)
      | cons c rest => exact ⟨rest, by simpa using head.mp marked⟩
    cases escapes with
    | false => exact fun e => absurd (congrArg List.length e) (by simp [task_name])
    | true => exact escaped_ne rest
  · rw [task_name_iff]
    exact ⟨fun h => ⟨mt head.mpr marked, h⟩, And.right⟩

theorem stat_read_iff (escapes : Bool) (task : TaskStat) : StatRead escapes task ↔ StatPlain escapes task := by
  have int_high (x : Int32) : x.toInt < 2 ^ 31 := x.toInt_lt
  have long_low (x : Int64) : -2 ^ 63 ≤ x.toInt := x.le_toInt
  have long_high (x : Int64) : x.toInt < 2 ^ 63 := x.toInt_lt
  have large (x : UInt64) : x.toNat < 2 ^ 64 := x.toNat_lt
  have small (x : UInt32) : x.toNat < 2 ^ 64 := x.toNat_lt.trans (by decide)
  have flags : U64 (stat_words task) 6 = task.flags.toNat := @U64_unsigned task 5 _ rfl (small _)
  rw [StatRead, StatPlain, parse_stat_line]
  simp only [read_fields]
  rw [comm_iff, @U64_signed task 0 _ rfl (int_high _), @U64_signed task 1 _ rfl (int_high _), @U64_signed task 2 _ rfl (int_high _),
    @U64_signed task 3 _ rfl (int_high _), @U64_signed task 4 _ rfl (int_high _), @U64_signed task 35 _ rfl (int_high _), flags]
  constructor
  · rintro ⟨-, -, comm, -, signed, -⟩
    exact ⟨comm, signed⟩
  · rintro ⟨comm, signed⟩
    refine ⟨trivial, trivial, comm, rfl, signed, ⟨rfl, ?_⟩, ?_, rfl⟩
    · exact ⟨@U64_unsigned task 6 _ rfl (large _), @U64_unsigned task 7 _ rfl (large _), @U64_unsigned task 8 _ rfl (large _),
        @U64_unsigned task 9 _ rfl (large _), @U64_unsigned task 10 _ rfl (large _), @U64_unsigned task 11 _ rfl (large _),
        @U64_unsigned task 18 _ rfl (large _), @U64_unsigned task 19 _ rfl (large _), @U64_unsigned task 21 _ rfl (large _),
        @U64_unsigned task 22 _ rfl (large _), @U64_unsigned task 23 _ rfl (large _), @U64_unsigned task 24 _ rfl (large _),
        @U64_unsigned task 25 _ rfl (large _), @U64_unsigned task 26 _ rfl (large _), @U64_unsigned task 36 _ rfl (small _),
        @U64_unsigned task 37 _ rfl (small _), @U64_unsigned task 38 _ rfl (large _), @U64_unsigned task 39 _ rfl (large _)⟩
    · exact ⟨@I64_value task 12 _ rfl (long_low _) (long_high _), @I64_value task 13 _ rfl (long_low _) (long_high _),
        @I64_value task 14 _ rfl (long_low _) (long_high _), @I64_value task 15 _ rfl (long_low _) (long_high _),
        @I64_value task 16 _ rfl (long_low _) (long_high _), @I64_value task 20 _ rfl (long_low _) (long_high _)⟩

/-! ## `maps` -/

theorem newline_byte {c : Char} (h : 10 ∈ String.utf8EncodeChar c) : c = '\n' := by
  cases blank : space_char c with
  | false => exact absurd ((encode_space c).2 blank 10 h) (by decide)
  | true =>
    obtain ⟨byte, form, -⟩ := (encode_space c).1 blank
    rw [form] at h
    refine (Utf8.encode_unique ?_).symm
    rw [form, ← List.mem_singleton.mp h]
    exact ⟨[], rfl⟩

theorem not_mem_toUtf8 {path : List Char} (h : '\n' ∉ path) : 10 ∉ toUtf8 path := by
  intro member
  obtain ⟨c, there, byte⟩ := List.mem_flatMap.mp member
  exact h (newline_byte byte ▸ there)

/-- The permissions of a mapping. -/
def perms (entry : SMapEntry) : Bytes :=
  [if entry.Read then 114 else 45, if entry.Write then 119 else 45, if entry.Exec then 120 else 45, if entry.Shared then 115 else 112]

theorem perms_word (entry : SMapEntry) : Word is_space (perms entry) := by
  refine ⟨by simp [perms], fun letter member => ?_⟩
  simp only [perms, List.mem_cons, List.not_mem_nil, or_false] at member
  rcases member with rfl | rfl | rfl | rfl <;> split <;> rfl

theorem not_space_mem {word : Bytes} (h : Word is_space word) : (10 : UInt8) ∉ word := fun member => absurd (h.2 10 member) (by decide)

theorem map_words_plain (entry : SMapEntry) : ∀ word ∈ map_words entry, Word is_space word := by
  have hex (width n : Nat) : Word is_space (padded 16 width n) := padded_word (.inr rfl) width n
  have joined {left right : Bytes} {c : UInt8} (hl : Word is_space left) (hc : is_space c = false) (hr : Word is_space right) :
      Word is_space (left ++ c :: right) := by
    refine ⟨by simp, fun d member => ?_⟩
    rcases List.mem_append.mp member with front | back
    · exact hl.2 d front
    · rcases List.mem_cons.mp back with rfl | back
      · exact hc
      · exact hr.2 d back
  have inode : Word is_space (text 10 entry.Inode.toNat) := by
    rw [text_eq_padded]
    exact padded_word (.inl rfl) 0 _
  simp only [map_words, List.forall_mem_cons, List.not_mem_nil, false_imp_iff, implies_true, and_true]
  exact ⟨joined (hex _ _) (by decide) (hex _ _), perms_word entry, hex _ _, joined (hex _ _) (by decide) (hex _ _), inode⟩

/-- The path of a line as it is read. -/
def reread (path : List Char) : List Char := fromUtf8 (simplified is_space 32 (toUtf8 path))

theorem words_map_line (entry : SMapEntry) : words is_space (map_line entry) = map_words entry ++ words is_space (toUtf8 entry.Path) := by
  have front : words is_space ([32].intercalate (map_words entry)) = map_words entry :=
    words_intercalate (by decide) _ (map_words_plain entry)
  rw [map_line]
  split_ifs with no_path
  · rw [words_append_cons _ [] (by decide), front, words_nil, no_path]
    rfl
  · obtain ⟨pad, is_pad⟩ : ∃ pad, pad = 72 - ([32].intercalate (map_words entry) ++ [32]).length := ⟨_, rfl⟩
    rw [← is_pad, List.append_assoc, List.append_assoc, List.append_assoc, List.singleton_append, words_append_cons _ _ (by decide), front,
      words_blanks pad _ (by decide), List.singleton_append, words_cons _ (by decide)]

theorem map_line_plain (entry : SMapEntry) (h : '\n' ∉ entry.Path) : (10 : UInt8) ∉ map_line entry ∧ map_line entry ≠ [] := by
  have header : (10 : UInt8) ∉ [32].intercalate (map_words entry) ++ [32] := by
    intro member
    rcases List.mem_append.mp member with inside | last
    · rcases mem_intercalate inside with e | ⟨word, there, here⟩
      · exact absurd e (by decide)
      · exact not_space_mem (map_words_plain entry word there) here
    · exact absurd (List.mem_singleton.mp last) (by decide)
  have path := not_mem_toUtf8 h
  constructor
  · rw [map_line]
    split_ifs
    · exact header
    · simp only [List.mem_append, not_or] at header path ⊢
      exact ⟨⟨⟨header, fun member => absurd (List.eq_of_mem_replicate member) (by decide)⟩, by decide⟩, path⟩
  · rw [map_line]
    split_ifs <;> simp

theorem parse_map_line (entry : SMapEntry) (h : '\n' ∉ entry.Path) : parse_map (map_line entry) = some { entry with Path := reread entry.Path } := by
  have read := words_map_line entry
  obtain ⟨F, is_F⟩ : ∃ F, F = (simplified is_space 32 (map_line entry)).splitOn 32 := ⟨_, rfl⟩
  have fields : F = map_words entry ++ words is_space (toUtf8 entry.Path) := by
    rw [is_F, simplified_split (by decide) (by rw [read]; simp [map_words]), read]
  have five : ¬ (map_line entry = [] ∨ F.length < 5) := by
    rw [fields, List.length_append]
    simp [(map_line_plain entry h).2, map_words]
  have first : F.getD 0 [] = padded 16 8 entry.Start.toNat ++ 45 :: padded 16 8 entry.End.toNat := by rw [fields]; rfl
  have second : F.getD 1 [] = perms entry := by rw [fields]; rfl
  have third : F.getD 2 [] = padded 16 8 entry.Offset.toNat := by rw [fields]; rfl
  have fourth : F.getD 3 [] = padded 16 2 entry.DevMajor.toNat ++ 58 :: padded 16 2 entry.DevMinor.toNat := by rw [fields]; rfl
  have fifth : F.getD 4 [] = text 10 entry.Inode.toNat := by rw [fields]; rfl
  have rest : F.drop 5 = words is_space (toUtf8 entry.Path) := by rw [fields]; rfl
  have bounds := cut_append (not_mem_padded (.inr rfl) 8 entry.Start.toNat (.inl (by decide) : (45 : UInt8) < 48 ∨ _)) (padded 16 8 entry.End.toNat)
  have device := cut_append (not_mem_padded (.inr rfl) 2 entry.DevMajor.toNat (.inr (by decide) : (58 : UInt8) < 48 ∨ _)) (padded 16 2 entry.DevMinor.toNat)
  have hex64 (width : Nat) (x : UInt64) : (hex (2 ^ 64) (padded 16 width x.toNat)).toUInt64 = x := by
    rw [hex, to_unsigned_padded (.inr rfl) width x.toNat_lt, Option.getD_some]
    exact UInt64.ofNat_toNat
  have hex32 (width : Nat) (x : UInt32) : (hex (2 ^ 32) (padded 16 width x.toNat)).toUInt32 = x := by
    rw [hex, to_unsigned_padded (.inr rfl) width x.toNat_lt, Option.getD_some]
    exact UInt32.ofNat_toNat
  have inode : ((to_unsigned (2 ^ 64) 10 (text 10 entry.Inode.toNat)).getD 0).toUInt64 = entry.Inode := by
    rw [text_eq_padded, to_unsigned_padded (.inl rfl) 0 entry.Inode.toNat_lt, Option.getD_some]
    exact UInt64.ofNat_toNat
  have path : (if 5 < F.length then fromUtf8 ([32].intercalate (F.drop 5)) else []) = reread entry.Path := by
    rw [rest, reread, simplified]
    split_ifs with more
    · rfl
    · have none : words is_space (toUtf8 entry.Path) = [] := by
        rw [fields, List.length_append] at more
        simp only [map_words, List.length_cons, List.length_nil] at more
        exact List.length_eq_zero_iff.mp (by omega)
      rw [none]
      rfl
  have four : (perms entry).length = 4 := rfl
  simp only [parse_map, ← is_F]
  rw [if_neg five, first, bounds]
  simp only [second, third, fourth, fifth, device, Option.getD_some, hex64, hex32, inode, path, four, le_refl, if_true]
  simp only [perms, Option.some.injEq, SMapEntry.mk.injEq, true_and, and_true, List.getD_cons_zero, List.getD_cons_succ]
  refine ⟨?_, ?_, ?_, ?_⟩
  · cases entry.Read <;> rfl
  · cases entry.Write <;> rfl
  · cases entry.Exec <;> rfl
  · cases entry.Shared <;> rfl

theorem parse_maps_text (entries : List SMapEntry) (h : ∀ entry ∈ entries, '\n' ∉ entry.Path) :
    ParseMaps (maps_text entries) = entries.map fun entry => { entry with Path := reread entry.Path } := by
  rw [ParseMaps]
  induction entries with
  | nil =>
    have empty : parse_map [] = none := by simp [parse_map]
    simp [maps_text, List.splitOn, empty]
  | cons entry rest ih =>
    have clean := (map_line_plain entry (h entry (by simp))).1
    have lines : (maps_text (entry :: rest)).splitOn 10 = map_line entry :: (maps_text rest).splitOn 10 := by
      rw [maps_text, List.flatMap_cons, List.append_assoc, List.singleton_append]
      exact List.splitOnP_append_cons_of_forall_mem (fun c member => by
        simp only [beq_eq_false_iff_ne, ne_eq]
        exact fun e => clean (e ▸ member)) 10 (by decide) _
    rw [lines, List.filterMap_cons, parse_map_line entry (h entry (by simp)), ih fun other member => h other (by simp [member])]
    rfl

theorem maps_read_iff (entries : List SMapEntry) (h : ∀ entry ∈ entries, '\n' ∉ entry.Path) :
    MapsRead entries ↔ ∀ entry ∈ entries, PathPlain entry.Path := by
  rw [MapsRead, parse_maps_text entries h]
  clear h
  induction entries with
  | nil => simp
  | cons entry rest ih =>
    have same : { entry with Path := reread entry.Path } = entry ↔ PathPlain entry.Path := by
      rw [PathPlain, ← fromUtf8_simplified_iff]
      constructor
      · exact fun e => congrArg SMapEntry.Path e
      · intro e
        rw [show reread entry.Path = entry.Path from e]
    rw [List.map_cons, List.cons.injEq, same, ih, List.forall_mem_cons]

/-- Both records are read as they were written exactly where the name and the paths are plain and the unsigned numbers have no sign. -/
theorem records_read (escapes : Bool) (task : TaskStat) (entries : List SMapEntry) (lines : ∀ entry ∈ entries, '\n' ∉ entry.Path) :
    StatRead escapes task ∧ MapsRead entries ↔ StatPlain escapes task ∧ ∀ entry ∈ entries, PathPlain entry.Path := by
  rw [stat_read_iff, maps_read_iff entries lines]

/-- A process named `) (evil` in the foreground group `tpgid`. -/
def shell (tpgid : Int32) : TaskStat where
  pid := 4711
  comm := [')', ' ', '(', 'e', 'v', 'i', 'l']
  state := 83
  letter := by decide
  ppid := 1
  pgrp := 4711
  session := 4711
  tty_nr := 34816
  tpgid := tpgid
  flags := 4194560
  min_flt := 100
  cmin_flt := 0
  maj_flt := 3
  cmaj_flt := 0
  utime := 7
  stime := 5
  cutime := -2
  cstime := 0
  priority := -2
  nice := -5
  num_threads := 1
  start_time := 123456
  vsize := 8192000
  rss := 900
  rsslim := 18446744073709551615
  start_code := 4194304
  end_code := 4198400
  start_stack := 140736000000000
  kstkesp := 0
  kstkeip := 0
  signal := 0
  blocked := 0
  sigignore := 0
  sigcatch := 0
  wchan := 1
  exit_signal := 17
  processor := 2
  rt_priority := 0
  policy := 0
  delayacct_blkio_ticks := 0
  guest_time := 0
  cguest_time := 0
  start_data := 0
  end_data := 0
  start_brk := 0
  arg_start := 0
  arg_end := 0
  env_start := 0
  env_end := 0
  exit_code := 0

/-- A mapping of a file. -/
def mapping (path : List Char) : SMapEntry :=
  ⟨0x7f1c2a000000, 0x7f1c2a021000, true, false, true, false, 0, 8, 1, 1234, path⟩

theorem records_read_shell : StatRead true (shell 4711) ∧ MapsRead [mapping "/tmp/a b (deleted)".toList] :=
  (records_read true (shell 4711) [mapping "/tmp/a b (deleted)".toList] (by decide +kernel)).mpr ⟨by decide +kernel, by decide +kernel⟩

/-- A process without a terminal has the foreground group -1, and two spaces in a path are read as one. -/
theorem records_misread : ¬ (∀ escapes task, StatRead escapes task) ∧ ¬ (∀ path : List Char, '\n' ∉ path → MapsRead [mapping path]) := by
  constructor
  · intro h
    have plain := (stat_read_iff false (shell (-1))).mp (h false (shell (-1)))
    exact absurd plain.2.2.2.2.2.1 (by decide)
  · intro h
    have plain := (maps_read_iff [mapping "/tmp/a  b".toList] (by decide +kernel)).mp (h "/tmp/a  b".toList (by decide +kernel))
    exact absurd (plain (mapping "/tmp/a  b".toList) (by simp)).1 (by decide +kernel)

end TaskExplorer.ProcFs
