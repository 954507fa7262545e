import TaskExplorer.OrderedMap

/-!
# The window indexes

`EnumWindows` keeps two indexes of the windows of the desktop, one by the handle and one by the process and thread.
A pass may report any handles in any order, each with the owner it has then. A hash is kept in the order of its keys.
-/

namespace TaskExplorer.WindowIndex
open OrderedMap

/-- A process id and a thread id. -/
abbrev PidTid := UInt64 × UInt64

/-- A `QMultiMap` from threads to windows, as its items in order. -/
abbrev Windows := List (UInt64 × UInt64)

/-- A new item comes before those of the same key. -/
def insertMulti (tid hWnd : UInt64) (windows : Windows) : Windows :=
  windows.orderedInsert (fun left right => left.1 ≤ right.1) (tid, hWnd)

/-- All items of this key and value go. -/
def remove (tid hWnd : UInt64) (windows : Windows) : Windows := windows.filter (fun item => item ≠ (tid, hWnd))

structure CWindowsAPI where
  m_WindowMap : OrdMap UInt64 Windows
  m_WindowRevMap : OrdMap UInt64 PidTid

/-- `CWindowsAPI__WndEnumStruct`, with what its pointers lead to. -/
structure WndEnumStruct extends CWindowsAPI where
  OldWindows : OrdMap UInt64 PidTid

/-- What one pass enumerates, and what `GetWindowThreadProcessId` answers meanwhile. -/
structure Desktop where
  windows : List UInt64
  GetWindowThreadProcessId : UInt64 → UInt32 × UInt32

def Desktop.owner (desktop : Desktop) (hWnd : UInt64) : PidTid :=
  let (threadId, processId) := desktop.GetWindowThreadProcessId hWnd
  (processId.toUInt64, threadId.toUInt64)

/-- `CWindowsAPI__WndEnumProc`: who owns a window is asked only where the last pass did not have it. -/
def WndEnumProc (desktop : Desktop) (context : WndEnumStruct) (hWnd : UInt64) : WndEnumStruct :=
  if (context.OldWindows.get hWnd).isSome then { context with OldWindows := context.OldWindows.erase hWnd }
  else
    let (processId, threadId) := desktop.owner hWnd
    let windows := (context.m_WindowMap.get processId).getD []
    { context with
      m_WindowMap := context.m_WindowMap.insert processId (insertMulti threadId hWnd windows)
      m_WindowRevMap := context.m_WindowRevMap.insert hWnd (processId, threadId) }

/-- The clean-up of one window that was not reported. -/
def forget (api : CWindowsAPI) (hWnd : UInt64) : CWindowsAPI :=
  let (pid, tid) := (api.m_WindowRevMap.get hWnd).getD (0, 0)
  let revMap := api.m_WindowRevMap.erase hWnd
  match api.m_WindowMap.get pid with
  | none => { api with m_WindowRevMap := revMap }
  | some windows =>
    let left := remove tid hWnd windows
    { m_WindowMap := if left.isEmpty then api.m_WindowMap.erase pid else api.m_WindowMap.insert pid left
      m_WindowRevMap := revMap }

/-- The callbacks of one pass. -/
def reported (desktop : Desktop) (api : CWindowsAPI) : WndEnumStruct :=
  desktop.windows.foldl (WndEnumProc desktop) { api with OldWindows := api.m_WindowRevMap }

def EnumWindows (api : CWindowsAPI) (desktop : Desktop) : CWindowsAPI × UInt32 :=
  let context := reported desktop api
  let api := (context.OldWindows.entries.map Prod.fst).foldl forget context.toCWindowsAPI
  (api, UInt32.ofNat api.m_WindowRevMap.entries.length)

def start : CWindowsAPI := ⟨OrdMap.empty, OrdMap.empty⟩

/-! ## What the indexes should hold -/

/-- How often a process has a window under a thread. -/
def CWindowsAPI.held (api : CWindowsAPI) (pid tid hWnd : UInt64) : Nat :=
  ((api.m_WindowMap.get pid).getD []).count (tid, hWnd)

/-- The index by process is the inverse of the index by handle. -/
structure Inverse (api : CWindowsAPI) : Prop where
  once : ∀ pid tid hWnd, api.held pid tid hWnd = if api.m_WindowRevMap.get hWnd = some (pid, tid) then 1 else 0
  full : ∀ pid, api.m_WindowMap.get pid ≠ some []

/-- Both indexes hold the windows of this desktop, under the owners they have. -/
structure Agrees (api : CWindowsAPI) (desktop : Desktop) : Prop extends Inverse api where
  owners : ∀ hWnd, api.m_WindowRevMap.get hWnd = if hWnd ∈ desktop.windows then some (desktop.owner hWnd) else none

/-- The indexes agree with the desktop after every pass. -/
def AllAgree : CWindowsAPI → List Desktop → Prop
  | _, [] => True
  | api, desktop :: rest =>
    Agrees (EnumWindows api desktop).1 desktop ∧ AllAgree (EnumWindows api desktop).1 rest

/-- No window is reported twice, and none that was there before has come to another process or thread. -/
def Steady (before after : Desktop) : Prop :=
  after.windows.Nodup ∧ ∀ hWnd ∈ after.windows, hWnd ∈ before.windows → before.owner hWnd = after.owner hWnd

/-- The desktop before the first pass, as far as it is known. -/
def unseen : Desktop := ⟨[], fun _ => (0, 0)⟩

/-! ## The callbacks -/

@[simp] theorem count_insertMulti (tid hWnd : UInt64) (item : UInt64 × UInt64) (windows : Windows) :
    (insertMulti tid hWnd windows).count item = windows.count item + if (tid, hWnd) = item then 1 else 0 := by
  rw [insertMulti, (List.perm_orderedInsert _ _ _).count_eq, List.count_cons]
  simp only [beq_iff_eq]

@[simp] theorem count_remove (tid hWnd : UInt64) (item : UInt64 × UInt64) (windows : Windows) :
    (remove tid hWnd windows).count item = if (tid, hWnd) = item then 0 else windows.count item := by
  by_cases same : (tid, hWnd) = item
  · rw [if_pos same, List.count_eq_zero]
    simp [remove, same]
  · rw [if_neg same, remove, List.count_filter (by simpa using fun eq => same eq.symm)]

/-- How often a window of the list is entered. -/
def entered (old : OrdMap UInt64 PidTid) (windows : List UInt64) (hWnd : UInt64) : Nat :=
  windows.count hWnd - if (old.get hWnd).isSome then 1 else 0

/-- What callbacks for a list of windows do. -/
structure Entered (desktop : Desktop) (windows : List UInt64) (context later : WndEnumStruct) : Prop where
  old : ∀ hWnd, later.OldWindows.get hWnd = if hWnd ∈ windows then none else context.OldWindows.get hWnd
  owners : ∀ hWnd, later.m_WindowRevMap.get hWnd =
    if 0 < entered context.OldWindows windows hWnd then some (desktop.owner hWnd) else context.m_WindowRevMap.get hWnd
  held : ∀ pid tid hWnd, later.held pid tid hWnd = context.held pid tid hWnd +
    if desktop.owner hWnd = (pid, tid) then entered context.OldWindows windows hWnd else 0
  full : (∀ pid, context.m_WindowMap.get pid ≠ some []) → ∀ pid, later.m_WindowMap.get pid ≠ some []

theorem entered_known {old : OrdMap UInt64 PidTid} {hWnd : UInt64} (known : (old.get hWnd).isSome) (windows : List UInt64)
    (sought : UInt64) : entered old (hWnd :: windows) sought = entered (old.erase hWnd) windows sought := by
  by_cases same : hWnd = sought
  · subst same
    simp [entered, known]
  · simp [entered, same]

theorem entered_new {old : OrdMap UInt64 PidTid} {hWnd : UInt64} (new : old.get hWnd = none) (windows : List UInt64)
    (sought : UInt64) :
    entered old (hWnd :: windows) sought = entered old windows sought + if hWnd = sought then 1 else 0 := by
  by_cases same : hWnd = sought
  · subst same
    simp [entered, new]
  · simp [entered, same]

theorem held_insert (context : WndEnumStruct) (owner : PidTid) (new pid tid hWnd : UInt64) :
    (((context.m_WindowMap.insert owner.1 (insertMulti owner.2 new ((context.m_WindowMap.get owner.1).getD []))).get
      pid).getD []).count (tid, hWnd) = context.held pid tid hWnd + if owner = (pid, tid) ∧ new = hWnd then 1 else 0 := by
  obtain ⟨process, thread⟩ := owner
  rw [OrdMap.get_insert, CWindowsAPI.held]
  by_cases same : process = pid
  · subst same
    simp
  · simp [same]

theorem insertMulti_ne_nil (tid hWnd : UInt64) (windows : Windows) : insertMulti tid hWnd windows ≠ [] := by
  intro empty
  have none := count_insertMulti tid hWnd (tid, hWnd) windows
  rw [empty] at none
  simp at none

theorem entered_all (desktop : Desktop) (windows : List UInt64) (context : WndEnumStruct) :
    Entered desktop windows context (windows.foldl (WndEnumProc desktop) context) := by
  induction windows generalizing context with
  | nil => exact ⟨by simp, by simp [entered], by simp [entered], fun full => full⟩
  | cons new rest ih =>
    rw [List.foldl_cons]
    obtain ⟨old, owners, held, full⟩ := ih (WndEnumProc desktop context new)
    by_cases known : (context.OldWindows.get new).isSome
    · have stepped : WndEnumProc desktop context new = { context with OldWindows := context.OldWindows.erase new } := by
        simp [WndEnumProc, known]
      simp only [stepped] at old owners held full ⊢
      refine ⟨fun hWnd => ?_, fun hWnd => ?_, fun pid tid hWnd => ?_, full⟩
      · rw [old, OrdMap.get_erase]
        by_cases same : new = hWnd <;> by_cases later : hWnd ∈ rest <;> simp [same, later, eq_comm]
      · rw [owners, entered_known known]
      · rw [held, entered_known known]
    · have absent : context.OldWindows.get new = none := by simpa using known
      generalize stepped : WndEnumProc desktop context new = next at old owners held full ⊢
      rw [WndEnumProc, if_neg known] at stepped
      subst stepped
      refine ⟨fun hWnd => ?_, fun hWnd => ?_, fun pid tid hWnd => ?_, fun filled => full (fun pid => ?_)⟩
      · rw [old]
        by_cases same : hWnd = new
        · simp [same, absent]
        · simp [same]
      · rw [owners, entered_new absent, OrdMap.get_insert]
        by_cases same : new = hWnd
        · subst same
          simp
        · simp [same]
      · rw [held, entered_new absent]
        have inserted := held_insert context (desktop.owner new) new pid tid hWnd
        by_cases same : new = hWnd
        · subst same
          by_cases owner : desktop.owner new = (pid, tid)
          · simp only [owner, true_and, if_true] at inserted ⊢
            simp only [CWindowsAPI.held] at inserted ⊢
            omega
          · simp only [owner, false_and, if_false, Nat.add_zero] at inserted ⊢
            exact inserted
        · simp only [same, and_false, if_false, Nat.add_zero] at inserted ⊢
          rw [CWindowsAPI.held, inserted]
      · rw [OrdMap.get_insert]
        split_ifs
        · simpa using insertMulti_ne_nil _ _ _
        · exact filled pid

/-! ## The clean-up -/

theorem forget_rev (api : CWindowsAPI) (hWnd sought : UInt64) :
    (forget api hWnd).m_WindowRevMap.get sought = if hWnd = sought then none else api.m_WindowRevMap.get sought := by
  simp only [forget]
  split <;> exact OrdMap.get_erase _ _ _

theorem forget_held {api : CWindowsAPI} {hWnd : UInt64} {owner : PidTid} (known : api.m_WindowRevMap.get hWnd = some owner)
    (pid tid sought : UInt64) :
    (forget api hWnd).held pid tid sought = if owner = (pid, tid) ∧ hWnd = sought then 0 else api.held pid tid sought := by
  obtain ⟨process, thread⟩ := owner
  simp only [forget, known, Option.getD_some, CWindowsAPI.held]
  by_cases same : process = pid
  · subst same
    cases present : api.m_WindowMap.get process with
    | none => simp [present]
    | some windows =>
      have counted := count_remove thread hWnd (tid, sought) windows
      simp only [Prod.mk.injEq] at counted
      by_cases empty : remove thread hWnd windows = []
      · rw [empty, List.count_nil] at counted
        simpa [empty] using counted
      · simp [empty, counted]
  · have other : ((process, thread) = (pid, tid) ∧ hWnd = sought) ↔ False := by simp [same]
    simp only [other, if_false]
    cases present : api.m_WindowMap.get process with
    | none => rfl
    | some windows => by_cases empty : remove thread hWnd windows = [] <;> simp [empty, same]

theorem forget_full {api : CWindowsAPI} (full : ∀ pid, api.m_WindowMap.get pid ≠ some []) (hWnd pid : UInt64) :
    (forget api hWnd).m_WindowMap.get pid ≠ some [] := by
  simp only [forget]
  split
  · exact full pid
  · rename_i windows present
    by_cases empty : remove ((api.m_WindowRevMap.get hWnd).getD (0, 0)).2 hWnd windows = []
    · simp only [empty, List.isEmpty_nil, if_true, OrdMap.get_erase]
      split_ifs
      · simp
      · exact full pid
    · simp only [List.isEmpty_iff, empty, if_false, OrdMap.get_insert]
      split_ifs
      · simpa using empty
      · exact full pid

/-- What the clean-up of a list of windows does. -/
structure Forgotten (gone : List UInt64) (api later : CWindowsAPI) : Prop where
  owners : ∀ hWnd, later.m_WindowRevMap.get hWnd = if hWnd ∈ gone then none else api.m_WindowRevMap.get hWnd
  held : ∀ pid tid hWnd, later.held pid tid hWnd =
    if hWnd ∈ gone ∧ api.m_WindowRevMap.get hWnd = some (pid, tid) then 0 else api.held pid tid hWnd
  full : (∀ pid, api.m_WindowMap.get pid ≠ some []) → ∀ pid, later.m_WindowMap.get pid ≠ some []

theorem forgotten_all {gone : List UInt64} {api : CWindowsAPI} (distinct : gone.Nodup)
    (known : ∀ hWnd ∈ gone, (api.m_WindowRevMap.get hWnd).isSome) : Forgotten gone api (gone.foldl forget api) := by
  induction gone generalizing api with
  | nil => exact ⟨by simp, by simp, fun full => full⟩
  | cons first rest ih =>
    obtain ⟨absent, distinct⟩ := List.nodup_cons.mp distinct
    obtain ⟨owner, found⟩ := Option.isSome_iff_exists.mp (known first List.mem_cons_self)
    have others (hWnd : UInt64) (member : hWnd ∈ rest) :
        (forget api first).m_WindowRevMap.get hWnd = api.m_WindowRevMap.get hWnd := by
      have different : first ≠ hWnd := fun same => absent (same ▸ member)
      rw [forget_rev, if_neg different]
    obtain ⟨owners, held, full⟩ := ih distinct (fun hWnd member => by
      rw [others hWnd member]
      exact known hWnd (List.mem_cons_of_mem _ member))
    refine ⟨fun hWnd => ?_, fun pid tid hWnd => ?_, fun filled => full (fun pid => forget_full filled first pid)⟩
    · rw [List.foldl_cons, owners, forget_rev]
      by_cases same : first = hWnd
      · simp [same]
      · simp [same, Ne.symm same]
    · rw [List.foldl_cons, held, forget_held found]
      by_cases same : first = hWnd
      · subst same
        simp [absent, found]
      · by_cases member : hWnd ∈ rest
        · simp [same, member, others hWnd member]
        · simp [same, Ne.symm same, member]

/-! ## One pass -/

section Pass
variable {api : CWindowsAPI} {desktop : Desktop}

/-- What a pass does to the indexes, window by window. -/
structure Passed (api : CWindowsAPI) (desktop : Desktop) (later : CWindowsAPI) : Prop where
  owners : ∀ hWnd, later.m_WindowRevMap.get hWnd = if hWnd ∉ desktop.windows then none
    else if 0 < entered api.m_WindowRevMap desktop.windows hWnd then some (desktop.owner hWnd)
    else api.m_WindowRevMap.get hWnd
  held : ∀ pid tid hWnd, later.held pid tid hWnd = if hWnd ∉ desktop.windows then 0
    else (if api.m_WindowRevMap.get hWnd = some (pid, tid) then 1 else 0) +
      if desktop.owner hWnd = (pid, tid) then entered api.m_WindowRevMap desktop.windows hWnd else 0
  full : ∀ pid, later.m_WindowMap.get pid ≠ some []

theorem passed (inverse : Inverse api) : Passed api desktop (EnumWindows api desktop).1 := by
  have first : Entered desktop desktop.windows { api with OldWindows := api.m_WindowRevMap } (reported desktop api) :=
    entered_all _ _ _
  have keys (hWnd : UInt64) : hWnd ∈ (reported desktop api).OldWindows.entries.map Prod.fst ↔
      hWnd ∉ desktop.windows ∧ (api.m_WindowRevMap.get hWnd).isSome := by
    have left := first.old hWnd
    rw [List.mem_map]
    constructor
    · rintro ⟨⟨key, old⟩, member, rfl⟩
      rw [OrdMap.mem_entries.mp member] at left
      by_cases listed : key ∈ desktop.windows
      · simp [listed] at left
      · rw [if_neg listed] at left
        exact ⟨listed, by simp [← left]⟩
    · rintro ⟨listed, known⟩
      obtain ⟨old, found⟩ := Option.isSome_iff_exists.mp known
      rw [if_neg listed, found] at left
      exact ⟨(hWnd, old), OrdMap.mem_entries.mpr left, rfl⟩
  have kept (hWnd : UInt64) (listed : hWnd ∉ desktop.windows) :
      (reported desktop api).m_WindowRevMap.get hWnd = api.m_WindowRevMap.get hWnd := by
    rw [first.owners, if_neg (by simp [entered, List.count_eq_zero_of_not_mem listed])]
  have last : Forgotten ((reported desktop api).OldWindows.entries.map Prod.fst) (reported desktop api).toCWindowsAPI
      (EnumWindows api desktop).1 := forgotten_all (OrdMap.keys_nodup _) (fun hWnd member => by
    rw [kept hWnd ((keys hWnd).mp member).1]
    exact ((keys hWnd).mp member).2)
  refine ⟨fun hWnd => ?_, fun pid tid hWnd => ?_, last.full (first.full inverse.full)⟩
  · by_cases listed : hWnd ∈ desktop.windows
    · have stays : hWnd ∉ (reported desktop api).OldWindows.entries.map Prod.fst := fun gone => ((keys hWnd).mp gone).1 listed
      rw [last.owners, if_neg stays, first.owners, if_neg (not_not.mpr listed)]
    · rw [last.owners, if_pos listed, kept hWnd listed]
      cases known : api.m_WindowRevMap.get hWnd with
      | none => simp
      | some old => rw [if_pos ((keys hWnd).mpr ⟨listed, by simp [known]⟩)]
  · by_cases listed : hWnd ∈ desktop.windows
    · have stays : hWnd ∉ (reported desktop api).OldWindows.entries.map Prod.fst := fun gone => ((keys hWnd).mp gone).1 listed
      rw [last.held, if_neg (fun gone => stays gone.1), first.held, if_neg (not_not.mpr listed)]
      exact congrArg (· + _) (inverse.once pid tid hWnd)
    · have before : (reported desktop api).held pid tid hWnd = api.held pid tid hWnd := by
        rw [first.held]
        simp [CWindowsAPI.held, entered, List.count_eq_zero_of_not_mem listed]
      rw [last.held, if_pos listed, kept hWnd listed, before, inverse.once]
      by_cases known : api.m_WindowRevMap.get hWnd = some (pid, tid)
      · rw [if_pos ⟨(keys hWnd).mpr ⟨listed, by simp [known]⟩, known⟩]
      · simp [known]

theorem agrees_iff {before : Desktop} (agrees : Agrees api before) :
    Agrees (EnumWindows api desktop).1 desktop ↔ Steady before desktop := by
  have done := @passed api desktop agrees.toInverse
  have counts (hWnd : UInt64) : entered api.m_WindowRevMap desktop.windows hWnd =
      desktop.windows.count hWnd - if hWnd ∈ before.windows then 1 else 0 := by
    rw [entered, agrees.owners]
    by_cases known : hWnd ∈ before.windows <;> simp [known]
  constructor
  · intro later
    -- a listed window is held once under the owner it has, and so was entered once or kept with that owner
    have once (hWnd : UInt64) (listed : hWnd ∈ desktop.windows) : desktop.windows.count hWnd = 1 ∧
        (hWnd ∈ before.windows → before.owner hWnd = desktop.owner hWnd) := by
      have positive := List.count_pos_iff.mpr listed
      have current := later.owners hWnd
      rw [if_pos listed] at current
      have held := done.held (desktop.owner hWnd).1 (desktop.owner hWnd).2 hWnd
      rw [later.once, if_pos current, if_neg (not_not.mpr listed), counts, agrees.owners] at held
      by_cases known : hWnd ∈ before.windows
      · have same : before.owner hWnd = desktop.owner hWnd := by
          by_contra moved
          have old := done.held (before.owner hWnd).1 (before.owner hWnd).2 hWnd
          rw [later.once, current, if_neg (fun eq => moved (Option.some.inj eq).symm), if_neg (not_not.mpr listed),
            agrees.owners, if_pos known] at old
          rw [if_pos rfl] at old
          omega
        simp only [known, same, if_true] at held
        exact ⟨by omega, fun _ => same⟩
      · simp only [known, if_false, reduceCtorEq, if_true] at held
        exact ⟨by omega, fun member => absurd member known⟩
    exact ⟨List.nodup_iff_count_eq_one.mpr (fun hWnd listed => (once hWnd listed).1), fun hWnd listed => (once hWnd listed).2⟩
  · rintro ⟨distinct, same⟩
    have fresh (hWnd : UInt64) (listed : hWnd ∈ desktop.windows) :
        entered api.m_WindowRevMap desktop.windows hWnd = if hWnd ∈ before.windows then 0 else 1 := by
      rw [counts, List.count_eq_one_of_mem distinct listed]
      split_ifs <;> rfl
    have owners (hWnd : UInt64) : (EnumWindows api desktop).1.m_WindowRevMap.get hWnd =
        if hWnd ∈ desktop.windows then some (desktop.owner hWnd) else none := by
      rw [done.owners]
      by_cases listed : hWnd ∈ desktop.windows
      · by_cases known : hWnd ∈ before.windows
        · simp [listed, known, fresh hWnd listed, agrees.owners, same hWnd listed known]
        · simp [listed, known, fresh hWnd listed]
      · simp [listed]
    refine ⟨⟨fun pid tid hWnd => ?_, done.full⟩, owners⟩
    rw [done.held, owners]
    by_cases listed : hWnd ∈ desktop.windows
    · by_cases known : hWnd ∈ before.windows
      · simp [listed, known, fresh hWnd listed, agrees.owners, same hWnd listed known]
      · simp [listed, known, fresh hWnd listed, agrees.owners]
    · simp [listed]

end Pass

/-! ## Runs -/

theorem allAgree_iff {api : CWindowsAPI} {before : Desktop} (agrees : Agrees api before) (passes : List Desktop) :
    AllAgree api passes ↔ List.IsChain Steady (before :: passes) := by
  induction passes generalizing api before with
  | nil => simp [AllAgree]
  | cons desktop rest ih =>
    rw [AllAgree, List.isChain_cons_cons, agrees_iff agrees]
    refine and_congr_right (fun steady => ?_)
    exact ih ((agrees_iff agrees).mpr steady)

/-- The indexes agree with the desktop after every pass exactly if no pass reports a window twice and no window that is
    there in two passes changes hands between them. -/
theorem window_indexes (passes : List Desktop) : AllAgree start passes ↔ List.IsChain Steady (unseen :: passes) := by
  refine allAgree_iff ⟨⟨fun pid tid hWnd => ?_, fun pid => ?_⟩, fun hWnd => ?_⟩ passes
  · simp [CWindowsAPI.held, start]
  · simp [start]
  · simp [start, unseen]

/-- A window whose handle came to another process between two passes stays with the first. -/
theorem reused_handle :
    ¬ AllAgree start [⟨[0x10420], fun _ => (40, 4)⟩, ⟨[0x10420], fun _ => (80, 8)⟩] := by
  intro agree
  exact absurd (agree.2.1.owners 0x10420) (by decide)

/-! ## Handles that are used again -/

/-- The indexes after these passes. -/
def after (passes : List Desktop) : CWindowsAPI := passes.foldl (fun api desktop => (EnumWindows api desktop).1) start

/-- The last passes report the window, the pass before them did not, and it had this owner at the first of them. -/
def Stays (passes : List Desktop) (hWnd : UInt64) (owner : PidTid) : Prop :=
  ∃ earlier first stay, passes = earlier ++ first :: stay ∧ (∀ last ∈ earlier.getLast?, hWnd ∉ last.windows) ∧
    (∀ desktop ∈ first :: stay, hWnd ∈ desktop.windows) ∧ first.owner hWnd = owner

theorem after_snoc (passes : List Desktop) (desktop : Desktop) : after (passes ++ [desktop]) = (EnumWindows (after passes) desktop).1 :=
  List.foldl_concat ..

/-- A pass that reports no window twice keeps the owners it knows. -/
theorem pass_once {api : CWindowsAPI} {desktop : Desktop} (inverse : Inverse api) (distinct : desktop.windows.Nodup) :
    Inverse (EnumWindows api desktop).1 ∧ ∀ hWnd, (EnumWindows api desktop).1.m_WindowRevMap.get hWnd =
      if hWnd ∈ desktop.windows then (api.m_WindowRevMap.get hWnd).or (some (desktop.owner hWnd)) else none := by
  have done := @passed api desktop inverse
  have fresh (hWnd : UInt64) (listed : hWnd ∈ desktop.windows) :
      entered api.m_WindowRevMap desktop.windows hWnd = if (api.m_WindowRevMap.get hWnd).isSome then 0 else 1 := by
    rw [entered, List.count_eq_one_of_mem distinct listed]
    split_ifs <;> rfl
  have owners (hWnd : UInt64) : (EnumWindows api desktop).1.m_WindowRevMap.get hWnd =
      if hWnd ∈ desktop.windows then (api.m_WindowRevMap.get hWnd).or (some (desktop.owner hWnd)) else none := by
    rw [done.owners]
    by_cases listed : hWnd ∈ desktop.windows
    · cases known : api.m_WindowRevMap.get hWnd <;> simp [listed, fresh hWnd listed, known]
    · simp [listed]
  refine ⟨⟨fun pid tid hWnd => ?_, done.full⟩, owners⟩
  rw [done.held, owners]
  by_cases listed : hWnd ∈ desktop.windows
  · cases known : api.m_WindowRevMap.get hWnd <;> simp [listed, fresh hWnd listed, known]
  · simp [listed]

/-- Where no pass reports a window twice, each index is the inverse of the other after every run, and a window is under the owner
    it had when its stay began, whoever has its handle since. -/
theorem owners_kept (passes : List Desktop) (distinct : ∀ desktop ∈ passes, desktop.windows.Nodup) :
    Inverse (after passes) ∧ ∀ hWnd owner, (after passes).m_WindowRevMap.get hWnd = some owner ↔ Stays passes hWnd owner := by
  suffices all : Inverse (after passes) ∧
      (∀ hWnd, (after passes).m_WindowRevMap.get hWnd = none ↔ ∀ last ∈ passes.getLast?, hWnd ∉ last.windows) ∧
      ∀ hWnd owner, (after passes).m_WindowRevMap.get hWnd = some owner ↔ Stays passes hWnd owner from ⟨all.1, all.2.2⟩
  induction passes using List.reverseRecOn with
  | nil =>
    refine ⟨⟨fun pid tid hWnd => by simp [CWindowsAPI.held, after, start], fun pid => by simp [after, start]⟩, by simp [after, start], ?_⟩
    intro hWnd owner
    simp [after, start, Stays]
  | append_singleton passes desktop ih =>
    obtain ⟨inverse, absent, stays⟩ := ih fun other member => distinct other (List.mem_append_left _ member)
    obtain ⟨inverseAfter, owners⟩ := pass_once inverse (distinct desktop (by simp))
    rw [after_snoc]
    refine ⟨inverseAfter, fun hWnd => ?_, fun hWnd owner => ?_⟩
    · rw [owners]
      by_cases listed : hWnd ∈ desktop.windows <;> simp [listed]
    · rw [owners]
      constructor
      · intro found
        split_ifs at found with listed
        cases known : (after passes).m_WindowRevMap.get hWnd with
        | none =>
          rw [known] at found
          exact ⟨passes, desktop, [], rfl, (absent hWnd).mp known, by simpa using listed, Option.some.inj found⟩
        | some old =>
          rw [known] at found
          obtain ⟨earlier, first, stay, rfl, before, inside, same⟩ := (stays hWnd old).mp known
          refine ⟨earlier, first, stay ++ [desktop], by simp, before, ?_, same.trans (Option.some.inj found)⟩
          intro other member
          rcases List.mem_append.mp (List.cons_append ▸ member : other ∈ first :: stay ++ [desktop]) with there | last
          · exact inside other there
          · rwa [List.mem_singleton.mp last]
      · rintro ⟨earlier, first, stay, same, before, inside, rfl⟩
        rcases List.eq_nil_or_concat' stay with rfl | ⟨stay, last, rfl⟩
        · obtain ⟨rfl, last⟩ := List.append_inj' same rfl
          cases last
          rw [if_pos (inside _ List.mem_cons_self), (absent hWnd).mpr before]
          rfl
        · have split : passes ++ [desktop] = (earlier ++ first :: stay) ++ [last] := by simpa using same
          obtain ⟨rfl, rest⟩ := List.append_inj' split rfl
          cases rest
          have known := (stays hWnd (first.owner hWnd)).mpr
            ⟨earlier, first, stay, rfl, before, fun other member => inside other (by grind), rfl⟩
          rw [if_pos (inside _ (by simp)), known]
          rfl

/-- The window of `reused_handle` is under its first owner, and once it was gone under its last. -/
theorem owners_kept_reused :
    (after [⟨[0x10420], fun _ => (40, 4)⟩, ⟨[0x10420], fun _ => (80, 8)⟩]).m_WindowRevMap.get 0x10420 = some (4, 40) ∧
    (after [⟨[0x10420], fun _ => (40, 4)⟩, ⟨[], fun _ => (0, 0)⟩, ⟨[0x10420], fun _ => (80, 8)⟩]).m_WindowRevMap.get 0x10420 = some (8, 80) :=
  ⟨((owners_kept _ (by simp)).2 _ _).mpr ⟨[], _, _, rfl, by simp, by simp, rfl⟩,
    ((owners_kept _ (by simp)).2 _ _).mpr ⟨[⟨[0x10420], fun _ => (40, 4)⟩, ⟨[], fun _ => (0, 0)⟩], _, [], rfl, by simp, by simp, rfl⟩⟩

end TaskExplorer.WindowIndex
