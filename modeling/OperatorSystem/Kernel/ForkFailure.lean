import OperatorSystem.Kernel.Fork
import OperatorSystem.Mm.CopyPageTables

/-!
# Forks that fail

`copyProcess` fails without a page for the new `PROCESS`, with different bases
for code and data, or when `copyPageTables` runs out of pages at any directory
entry and `freePageTables` undoes what it has done. None of these leaves a trace
(`failed_fork`), whatever the segment of the parent, but in what an entry of the
directory holds that is not present (`failed_fork_lost`).
-/

namespace OperatorSystem.Kernel

open OperatorSystem.Mm

/-- The directory entries of a segment with this limit, as `copyPageTables` counts them. -/
def dirEntries (limit : BitVec 32) : Nat := ((limit + 1 + 0x3fffff) >>> 22).toNat

theorem toNat_rounded {size c : BitVec 32} {n : Nat} (value : c.toNat = n) :
    ((size + c) >>> 22).toNat = (size.toNat + n) % 2 ^ 32 / 2 ^ 22 := by
  rw [BitVec.toNat_ushiftRight, Nat.shiftRight_eq_div_pow, BitVec.toNat_add, value]

/-- `freePageTables` gets the limit in place of the size, and counts the same
entries for a segment of whole pages. -/
theorem dirEntries_limit {limit : BitVec 32} (whole : (limit.toNat + 1) % 4096 = 0) :
    ((limit + 0x3fffff) >>> 22).toNat = dirEntries limit := by
  have round : (0x3fffff : BitVec 32).toNat = 4194303 := by decide
  have one : (1 : BitVec 32).toNat = 1 := by decide
  rw [dirEntries, toNat_rounded round, toNat_rounded round, BitVec.toNat_add, one]
  -- rounded up, a size that is a multiple of 4 KB ends in 0xfff
  omega

/-- The segment can be copied to a slot: its directory entries are entries of the
directory, and those it is copied to are empty. -/
structure Forkable (m : Memory) (nr : Slot) (base limit : BitVec 32) : Prop where
  whole : (limit.toNat + 1) % 4096 = 0
  aligned : base &&& 0x3fffff = 0
  inside : dirIndex base + dirEntries limit ≤ 1024
  room : 16 * nr.val + dirEntries limit ≤ 1024
  empty : ∀ d, 16 * nr.val ≤ d → d < 16 * nr.val + dirEntries limit → ¬ Present (m.page 0 d)

theorem Forkable.copyable {m : Memory} {nr : Slot} {base limit : BitVec 32} (forkable : Forkable m nr base limit)
    (user : nr ≠ 0) : Copyable m (16 * nr) (dirIndex base) (dirEntries limit) := by
  have nonzero : nr.val ≠ 0 := fun zero => user (Fin.ext zero)
  exact ⟨by omega, by omega, forkable.room, forkable.inside, forkable.empty⟩

/-- How many entries of each table `copyPageTables` copies. -/
def tableEntries (base : BitVec 32) : Nat := if base = 0 then 0xA0 else 1024

theorem tableEntries_le (base : BitVec 32) : tableEntries base ≤ 1024 := by
  unfold tableEntries
  split <;> omega

/-- `copyMem` is the copy of the directory entries, and its undo if it fails. -/
theorem shareSegment_eq {m m' : Memory} {nr : Slot} (user : nr ≠ 0) {base limit : BitVec 32}
    (forkable : Forkable m nr base limit)
    (undone : (m.copyDirs (tableEntries base) (dirEntries limit) (16 * nr) (dirIndex base)).1.freeDirs
      (dirEntries limit) (16 * nr) = some m') :
    m.shareSegment (segmentBase nr) base limit =
      if (m.copyDirs (tableEntries base) (dirEntries limit) (16 * nr) (dirIndex base)).2 = 0 then
        some ((m.copyDirs (tableEntries base) (dirEntries limit) (16 * nr) (dirIndex base)).1, true)
      else some (m', false) := by
  have nonzero : nr.val ≠ 0 := fun zero => user (Fin.ext zero)
  have slot : nr.val < 64 := nr.isLt
  have copied : m.copyPageTables (segmentBase nr) base (limit + 1) =
      m.copyDirs (tableEntries base) (dirEntries limit) (16 * nr) (dirIndex base) := by
    simp only [Memory.copyPageTables, segmentBase_aligned slot, forkable.aligned,
      dirIndex_segmentBase slot, ne_eq, not_true_eq_false, or_self, if_false, dirEntries, tableEntries]
  rw [Memory.shareSegment, copied]
  generalize m.copyDirs (tableEntries base) (dirEntries limit) (16 * nr) (dirIndex base) = result at undone ⊢
  obtain ⟨m₁, ret⟩ := result
  -- a copy that failed half way is undone by `freePageTables`
  by_cases done : ret = 0
  · simp only [done, ne_eq, not_true_eq_false, if_false, if_true]
  · have freed : m₁.freePageTables (segmentBase nr) limit = some (m', 0) := by
      have base_ne_zero : segmentBase nr ≠ 0 := fun zero => nonzero ((segmentBase_eq_zero slot).mp zero)
      simp only [Memory.freePageTables, segmentBase_aligned slot, base_ne_zero, ne_eq,
        not_true_eq_false, if_false, dirEntries_limit forkable.whole, dirIndex_segmentBase slot]
      rw [undone]
      rfl
    simp only [done, ne_eq, not_false_eq_true, if_true, if_false, freed]
    rfl

/-- A segment is shared as a whole, or what has been shared of it is undone. -/
theorem shareSegment_restored {m : Memory} {pages : Nat → Nat} (paged : Paged m pages) {nr : Slot}
    (user : nr ≠ 0) {base limit : BitVec 32} (forkable : Forkable m nr base limit) :
    ∃ m' shared, m.shareSegment (segmentBase nr) base limit = some (m', shared) ∧
      (shared = false → Restored m m' (dirIndex base) (dirEntries limit)) := by
  have copyable := forkable.copyable user
  have copied := Filled.copyDirs_spec paged copyable (tableEntries_le base) (i := 0) (Filled.refl m copyable)
    (Nat.zero_add _).le copyable.empty
  obtain ⟨m', undone, restored⟩ := copied.filled.undo paged copyable
  rw [shareSegment_eq user forkable undone]
  split
  · exact ⟨_, true, rfl, fun failed => absurd failed (by decide)⟩
  · exact ⟨m', false, rfl, fun _ => restored⟩

namespace TaskTable

/-- The two states differ at most in the frames that are free, in the words of
empty directory entries and in the write permissions of the parent. -/
structure NoTrace (s s' : TaskTable) (src n : Nat) : Prop where
  tasks : s'.tasks = s.tasks
  current : s'.current = s.current
  lastPid : s'.lastPid = s.lastPid
  ticks : s'.ticks = s.ticks
  gdt : s'.gdt = s.gdt
  fCount : s'.fCount = s.fCount
  iCount : s'.iCount = s.iCount
  mem : Restored s.mem s'.mem src n

theorem NoTrace.of_mem (s : TaskTable) {mem : Memory} {src n : Nat}
    (restored : Restored s.mem mem src n) : NoTrace s { s with mem } src n :=
  ⟨rfl, rfl, rfl, rfl, rfl, rfl, rfl, restored⟩

/-- `copyProcess` with different bases takes a page and gives it back. -/
theorem copyProcess_differ (s : TaskTable) {cur : Process} {nr : Slot} {frame : UserFrame}
    {mem mem' : Memory} {p : BitVec 32} (free : s.tasks nr = none)
    (differ : getDescBase (cur.ldt 1) ≠ getDescBase (cur.ldt 2))
    (found : s.mem.getFreePage = (mem, p)) (nonzero : p ≠ 0) (freed : mem.freePage p = some mem') :
    s.copyProcess cur nr frame = some ({ s with mem := mem' }, -1) := by
  have minus : (-1 : BitVec 32) ≠ 0 := by decide
  have restored : Function.update s.tasks nr none = s.tasks := by
    rw [← free, Function.update_eq_self]
  simp only [copyProcess, copyMem, found, nonzero, differ, setTask, ne_eq, not_false_eq_true, if_true,
    if_false, Option.bind_eq_bind, Option.bind_some, minus, Function.update_idem, freed, restored,
    Option.pure_def]

/-- A fork installs the new task, or fails and leaves no trace. -/
theorem failed_fork {s : TaskTable} (reached : Transition.Reachable system s) {cur : Process}
    {nr : Slot} (free : s.tasks nr = none)
    (forkable : Forkable s.mem nr (getDescBase (cur.ldt 2)) (getDescLimit (cur.ldt 2)))
    (frame : UserFrame) : ∃ s' ret, s.copyProcess cur nr frame = some (s', ret) ∧
      ((ret = s.lastPid ∧ (s'.tasks nr).isSome) ∨
        ret = -1 ∧ NoTrace s s' (dirIndex (getDescBase (cur.ldt 2)))
          (dirEntries (getDescLimit (cur.ldt 2)))) := by
  have counted : Counted s := reached.invariant (fun _ => Initial.counted) fun _ _ _ => Counted.step
  have user : nr ≠ 0 := by
    rintro rfl
    have live := counted.zero
    rw [free] at live
    cases live
  rcases counted.paged.getFreePage with failed | ⟨f, main, nowhere, found, nonzero, claimed, _⟩
  · refine ⟨s, -1, ?_, Or.inr ⟨rfl, NoTrace.of_mem s (Restored.refl s.mem _ _)⟩⟩
    simp only [copyProcess, failed, if_true]
  · -- the page that was claimed for the task was free before
    have unused : s.mem.memMap f = 0 := by
      have exact := counted.paged.sound.exact f main
      obtain ⟨unmapped, clear⟩ := nowhere
      rw [Memory.mappings] at unmapped
      exact toInt_eq_zero.mp (by omega)
    have dir : (s.mem.claimPage f).page 0 = s.mem.page 0 := by
      refine Function.update_of_ne ?_ _ _
      have := main.1
      omega
    -- `copyMem` gives up at once where code and data segment differ
    by_cases differ : getDescBase (cur.ldt 1) = getDescBase (cur.ldt 2)
    · have forkable' : Forkable (s.mem.claimPage f) nr (getDescBase (cur.ldt 2))
          (getDescLimit (cur.ldt 2)) := by
        refine ⟨forkable.whole, forkable.aligned, forkable.inside, forkable.room, ?_⟩
        rw [dir]
        exact forkable.empty
      obtain ⟨mem, shared, done, restored⟩ := shareSegment_restored claimed user forkable'
      rw [copyProcess_eq s free differ rfl rfl found nonzero, done]
      cases shared with
      | true =>
        refine ⟨_, _, rfl, Or.inl ⟨rfl, ?_⟩⟩
        rw [forked_tasks, Function.update_self]
        rfl
      | false =>
        obtain ⟨freed, whole⟩ := (restored rfl).around counted.paged main unused
        refine ⟨_, _, ?_, Or.inr ⟨rfl, NoTrace.of_mem s whole⟩⟩
        simp only [Option.bind_some, Bool.false_eq_true, if_false, freed, Option.map_some]
    · obtain ⟨freed, whole⟩ := (Restored.refl (s.mem.claimPage f) _ _).around counted.paged main unused
      exact ⟨_, _, copyProcess_differ s free differ found nonzero freed,
        Or.inr ⟨rfl, NoTrace.of_mem s whole⟩⟩

/-- Right after boot, task 0 can fork its segment into slot 1. -/
theorem forkable_booted {mem : Memory} (page : mem.page = Spaces.bootMemory.page) :
    Forkable mem 1 (getDescBase ((initTask 0x20000).ldt 2)) (getDescLimit ((initTask 0x20000).ldt 2)) := by
  have base : getDescBase ((initTask 0x20000).ldt 2) = 0 := by decide
  have limit : getDescLimit ((initTask 0x20000).ldt 2) = segmentLimit := by decide
  have one : dirEntries segmentLimit = 1 := by decide
  rw [base, limit]
  refine ⟨by decide, by decide, ?_, ?_, ?_⟩
  · rw [one]
    decide
  · rw [one]
    decide
  · intro d low high
    rw [one] at high
    change 16 * 1 ≤ d at low
    change d < 16 * 1 + 1 at high
    rw [page]
    exact Spaces.booted_bootMemory.empty d (by omega) (by omega)

theorem failed_fork_booted : ∃ mem, ∀ frame, ∃ s' ret,
    (booted mem).copyProcess (initTask 0x20000) 1 frame = some (s', ret) ∧
      ((ret = (booted mem).lastPid ∧ (s'.tasks 1).isSome) ∨
        ret = -1 ∧ NoTrace (booted mem) s' (dirIndex (getDescBase ((initTask 0x20000).ldt 2)))
          (dirEntries (getDescLimit ((initTask 0x20000).ldt 2)))) := by
  have initialised : ∃ mem, Spaces.bootMemory.initMemory 0x2000000 = some mem := ⟨_, rfl⟩
  obtain ⟨mem, done⟩ := initialised
  have start : Initial (booted mem) :=
    ⟨⟨Spaces.bootMemory, Spaces.booted_bootMemory, done⟩, ⟨0x20000, rfl⟩, rfl, rfl⟩
  refine ⟨mem, fun frame => ?_⟩
  have free : (booted mem).tasks 1 = none := rfl
  exact failed_fork (Transition.Reachable.init start) free
    (forkable_booted (initMemory_memMap done).1) frame

end TaskTable

/-! ### A word of the directory that is not kept -/

section Wide

variable {m : Memory} {pages : Nat → Nat}

theorem identity_present (paged : Paged m pages) {j : Nat} (small : j < 6) : Present (m.page 0 (2 + j)) := by
  rw [paged.identityDir (2 + j) (by omega)]
  exact present_freshEntry _

theorem copyable_wide (empty : ∀ d, 16 ≤ d → d < 31 → ¬ Present (m.page 0 d)) : Copyable m 16 2 15 :=
  ⟨by omega, by omega, by omega, by omega, empty⟩

/-- The entries of 60 MB from 8 MB on are copied to slot 1: the identity tables of
main memory, and behind them entries that the copy itself fills. -/
theorem copied_wide (paged : Paged m pages) (empty : ∀ d, 16 ≤ d → d < 31 → ¬ Present (m.page 0 d)) {size : Nat}
    (fits : size ≤ 15) : Filled.Copied m m 16 2 15 1024 0 size (m.copyDirs 1024 size 16 2).1
      (m.copyDirs 1024 size 16 2).2 := by
  have copyable := copyable_wide empty
  exact Filled.copyDirs_spec paged copyable (le_refl 1024) (i := 0) (Filled.refl m copyable) (by omega) empty

/-- After the six identity tables every page is counted. -/
theorem starved_wide (paged : Paged m pages) (empty : ∀ d, 16 ≤ d → d < 31 → ¬ Present (m.page 0 d))
    (done : (m.copyDirs 1024 6 16 2).2 = 0) : ∀ f < pagesSize, (m.copyDirs 1024 6 16 2).1.memMap f ≠ 0 := by
  have six := copied_wide paged empty (show 6 ≤ 15 by decide)
  intro f small
  by_cases low : f < 2048
  · refine six.used f ?_
    rw [paged.reserved f low]
    decide
  · have small : f < 8192 := small
    have place : 1024 * (2 + (f / 1024 - 2)) + f % 1024 = f := by omega
    -- the table of its 4 MB maps the page
    refine (six.done done (f / 1024 - 2) (by omega) (by omega) (by omega)
      (identity_present paged (by omega))).2 (f % 1024) (by omega) f ?_ (by omega)
    rw [Memory.target_eq_some]
    refine ⟨2 + (f / 1024 - 2) + 1, ?_, ?_⟩
    · rw [paged.identityDir _ (by omega)]
      exact pointee_freshEntry (by omega)
    · rw [paged.identity _ (by omega) _ (by omega), pointee_freshEntry (by omega), place]

/-- With a free page there is a table for the first entry. -/
theorem first_wide (paged : Paged m pages) (empty : ∀ d, 16 ≤ d → d < 31 → ¬ Present (m.page 0 d)) {g : Nat}
    (inside : g < pagesSize) (free : m.memMap g = 0) : (m.copyDirs 1024 1 16 2).2 = 0 := by
  have there : Present (m.page 0 2) := identity_present (j := 0) paged (by decide)
  rcases m.getFreePage_cases with ⟨_, used⟩ | ⟨t, small, unused, found⟩
  · exact absurd free (used g inside)
  · obtain ⟨main, _⟩ := (Filled.refl m (copyable_wide empty)).fresh paged small unused
    have nonzero : 0 < t := by
      have := main.1
      omega
    rw [Memory.copyDirs, if_neg (empty 16 (by omega) (by omega)), if_neg (not_not.mpr there)]
    simp only [found, pageAddr_ne_zero main.small nonzero, if_false]
    rfl

/-- The copy fails at the seventh entry, but the first entry of slot 1 has been set. -/
theorem copyDirs_wide (paged : Paged m pages) (empty : ∀ d, 16 ≤ d → d < 31 → ¬ Present (m.page 0 d)) {g : Nat}
    (inside : g < pagesSize) (free : m.memMap g = 0) :
    (m.copyDirs 1024 15 16 2).2 ≠ 0 ∧ Present ((m.copyDirs 1024 15 16 2).1.page 0 16) := by
  have there : Present (m.page 0 (2 + 0)) := identity_present paged (by decide)
  constructor
  · rw [show 15 = 6 + 9 from rfl, Filled.copyDirs_add]
    have six := copied_wide paged empty (show 6 ≤ 15 by decide)
    split
    next done =>
      have behind : Present ((m.copyDirs 1024 6 16 2).1.page 0 (2 + 6 + 8)) :=
        (six.done done 0 (by omega) (by omega) (by omega) there).1
      rw [Filled.copyDirs_starved (starved_wide paged empty done) 1024 (show 8 < 9 by omega) behind]
      change (-1 : BitVec 32) ≠ 0
      decide
    next failed => exact failed
  · rw [show 15 = 1 + 14 from rfl, Filled.copyDirs_add]
    have one := copied_wide paged empty (show 1 ≤ 15 by decide)
    have done := first_wide paged empty inside free
    have set := (one.done done 0 (by omega) (by omega) (by omega) there).1
    rw [if_pos done]
    have rest : Filled.Copied m (m.copyDirs 1024 1 16 2).1 16 2 15 1024 1 14 _ _ :=
      Filled.copyDirs_spec paged (copyable_wide empty) (le_refl 1024) one.filled (by omega) (one.later done)
    exact (rest.before 16 (by omega)).symm ▸ set

theorem forkable_wide (empty : ∀ d, 16 ≤ d → d < 31 → ¬ Present (m.page 0 d)) :
    Forkable m 1 0x800000 0x3bfffff := by
  have entries : dirEntries 0x3bfffff = 15 := by decide
  refine ⟨by decide, by decide, by decide, by decide, ?_⟩
  rw [entries]
  exact empty

/-- The undo of that copy stores 0 in the entry that was set. -/
theorem shareSegment_wide (paged : Paged m pages) (empty : ∀ d, 16 ≤ d → d < 31 → ¬ Present (m.page 0 d)) {g : Nat}
    (inside : g < pagesSize) (free : m.memMap g = 0) :
    ∃ m', m.shareSegment (segmentBase (1 : Slot)) 0x800000 0x3bfffff = some (m', false) ∧
      Restored m m' 2 15 ∧ m'.page 0 16 = 0 := by
  obtain ⟨failed, set⟩ := copyDirs_wide paged empty inside free
  have user : (1 : Slot) ≠ 0 := by decide
  have copyable := copyable_wide empty
  have copied := copied_wide paged empty (le_refl 15)
  obtain ⟨m', undone, _, cleared, _⟩ := copied.filled.borrowed.freeDirs copyable.dest
  obtain ⟨m'', undone', restored⟩ := copied.filled.undo paged copyable
  obtain rfl : m' = m'' := Option.some.inj (undone.symm.trans undone')
  have entries : dirEntries 0x3bfffff = 15 := by decide
  have all : tableEntries 0x800000 = 1024 := by decide
  refine ⟨m', ?_, restored, (cleared 16).trans (if_pos ⟨by omega, by omega, set⟩)⟩
  rw [shareSegment_eq user (forkable_wide empty) (by rw [all, entries]; exact undone), if_neg]
  rw [all, entries]
  exact failed

end Wide

/-- The memory at boot, with a word in directory entry 16 that is not 0 and not present. -/
def leftover : Memory where
  page f k := if f = 0 ∧ k = 16 then 2 else Spaces.bootMemory.page f k
  memMap := Spaces.bootMemory.memMap

theorem booted_leftover : leftover.Booted := by
  have boot := Spaces.booted_bootMemory
  constructor
  · intro d small
    exact (if_neg (by omega)).trans (boot.identityDir d small)
  · intro d small k index
    have same : leftover.page (d + 1) k = Spaces.bootMemory.page (d + 1) k := by simp [leftover]
    rw [same]
    exact boot.identity d small k index
  · intro d high small
    by_cases here : d = 16
    · subst here
      decide
    · have same : leftover.page 0 d = Spaces.bootMemory.page 0 d := if_neg (by omega)
      rw [same]
      exact boot.empty d high small

/-- A task whose segment is the 60 MB from 8 MB on. -/
def wide : Process :=
  { initTask 0x20000 with
    ldt := ![setGdtDesc 0 0 0,
      setGdtDesc 0x800000 0x3bff (daLimit4k ||| da32 ||| daCr ||| privilegeUser),
      setGdtDesc 0x800000 0x3bff (daLimit4k ||| da32 ||| daDrw ||| privilegeUser)] }

namespace TaskTable

/-- A fork of that segment into slot 1 fails after it has set entry 16, and the undo stores 0 there. -/
theorem copyProcess_wide {mem : Memory} (page : mem.page = leftover.page)
    (claimable : ∀ f, Main f → mem.memMap f = 0) {pages : Nat → Nat} (paged : Paged mem pages)
    (frame : UserFrame) : Forkable mem 1 (getDescBase (wide.ldt 2)) (getDescLimit (wide.ldt 2)) ∧
      ∃ s', (booted mem).copyProcess wide 1 frame = some (s', -1) ∧ s'.mem.page 0 16 = 0 := by
  have code : getDescBase (wide.ldt 1) = 0x800000 := by decide
  have data : getDescBase (wide.ldt 2) = 0x800000 := by decide
  have limit : getDescLimit (wide.ldt 2) = 0x3bfffff := by decide
  have empty : ∀ d, 16 ≤ d → d < 31 → ¬ Present (mem.page 0 d) := by
    intro d low high
    rw [page]
    exact booted_leftover.empty d (by omega) (by omega)
  rw [data, limit]
  refine ⟨forkable_wide empty, ?_⟩
  have first : Main 2048 := ⟨by decide, by decide⟩
  have second : Main 2049 := ⟨by decide, by decide⟩
  have some_free : mem.getFreePage ≠ (mem, 0) := by
    intro failed
    rcases mem.getFreePage_cases with ⟨_, used⟩ | ⟨f, small, unused, found⟩
    · exact used 2048 first.2 (claimable 2048 first)
    · obtain ⟨main, _⟩ := (Filled.refl mem (copyable_wide empty)).fresh paged small unused
      rw [failed, Prod.mk.injEq] at found
      have := main.1
      exact pageAddr_ne_zero main.small (by omega) found.2.symm
  obtain ⟨f, main, _, found, nonzero, claimed, _⟩ := paged.getFreePage.resolve_left some_free
  have dir : (mem.claimPage f).page 0 = mem.page 0 := by
    refine Function.update_of_ne ?_ _ _
    have := main.1
    omega
  -- there is another page, so the first directory entry is copied
  have another : ∃ g < pagesSize, (mem.claimPage f).memMap g = 0 := by
    by_cases taken : f = 2048
    · exact ⟨2049, second.2, (Function.update_of_ne (by omega) _ _).trans (claimable 2049 second)⟩
    · exact ⟨2048, first.2, (Function.update_of_ne (Ne.symm taken) _ _).trans (claimable 2048 first)⟩
  obtain ⟨g, inside, unused⟩ := another
  obtain ⟨m', shared, restored, zero⟩ := shareSegment_wide claimed (by rw [dir]; exact empty) inside unused
  obtain ⟨freed, _⟩ := restored.around paged main (claimable f main)
  refine ⟨{ booted mem with mem := m'.setCount f 0 }, ?_, zero⟩
  rw [copyProcess_eq (booted mem) rfl code data limit found nonzero, shared]
  simp only [Option.bind_some, Bool.false_eq_true, if_false, freed, Option.map_some]

/-- What a directory entry that is not present holds can be lost in a fork that fails. -/
theorem failed_fork_lost : ¬ ∀ s : TaskTable, Transition.Reachable system s →
    ∀ (cur : Process) (nr : Slot) (frame : UserFrame) (s' : TaskTable), s.tasks nr = none →
      Forkable s.mem nr (getDescBase (cur.ldt 2)) (getDescLimit (cur.ldt 2)) →
      s.copyProcess cur nr frame = some (s', -1) → ∀ d < 1024, s'.mem.page 0 d = s.mem.page 0 d := by
  intro kept
  have initialised : ∃ mem, leftover.initMemory 0x2000000 = some mem := ⟨_, rfl⟩
  obtain ⟨mem, done⟩ := initialised
  obtain ⟨page, _, claimable⟩ := initMemory_memMap done
  have start : Initial (booted mem) := ⟨⟨leftover, booted_leftover, done⟩, ⟨0x20000, rfl⟩, rfl, rfl⟩
  have reached : Transition.Reachable system (booted mem) := Transition.Reachable.init start
  let frame : UserFrame := ⟨0, 0, 0, 0, 0, 0, 0, 0, 0, 0, 0, 0, 0, 0, 0⟩
  obtain ⟨forkable, s', failed, zero⟩ := copyProcess_wide page claimable (Initial.counted start).paged frame
  have same := kept (booted mem) reached wide 1 frame s' rfl forkable failed 16 (by omega)
  rw [zero] at same
  have word : (booted mem).mem.page 0 16 = 2 := congrFun (congrFun page 0) 16
  rw [word] at same
  exact absurd same (by decide)

end TaskTable

end OperatorSystem.Kernel
