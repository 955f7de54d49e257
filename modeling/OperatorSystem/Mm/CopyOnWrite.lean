import OperatorSystem.Kernel.Process
import OperatorSystem.Library.Transition
import OperatorSystem.Mm.AddressSpace

/-!
# Copy-on-write isolation

Tasks fork by sharing their pages read-only and get a page of their own at the
first write. The module runs forks and user writes from the boot state of a
32 MB machine and shows that a write is seen by the writing task alone
(`copyOnWrite_isolates`).
-/

namespace OperatorSystem.Mm

open OperatorSystem.Kernel (Slot)

/-! ### The machine -/

namespace Memory

/-- The part of `copyMem` after the segment bases: share the pages of the
segment at `src` with the one at `dest`, and undo it on failure. -/
def shareSegment (m : Memory) (dest src limit : BitVec 32) : Option (Memory × Bool) :=
  match m.copyPageTables dest src (limit + 1) with
  | (m, ret) =>
    if ret ≠ 0 then do
      let (m, _) ← m.freePageTables dest limit
      return (m, false)
    else some (m, true)

/-- A store of one byte by a task: a write to a read-only page runs
`writeProtectPage` first and is then repeated. -/
def userWrite (m : Memory) (a : BitVec 32) (b : BitVec 8) : Option Memory := do
  let entry ← m.walk a
  let m ← if Writable entry then some m else m.writeProtectPage a
  m.storeByte a b

/-- What `setupPageing` leaves for 32 MB: eight identity tables and nothing else. -/
structure Booted (m : Memory) : Prop where
  identityDir : ∀ d < 8, m.page 0 d = freshEntry (d + 1)
  identity : ∀ d < 8, ∀ k < 1024, m.page (d + 1) k = freshEntry (1024 * d + k)
  empty : ∀ d, 8 ≤ d → d < 1024 → ¬ Present (m.page 0 d)

end Memory

structure Spaces where
  mem : Memory
  live : Slot → Bool

namespace Spaces

inductive Action
  | fork (i j : Slot) (success : Bool)
  | write (j : Slot) (off : Nat) (b : BitVec 8)

inductive Step : Spaces → Action → Spaces → Prop
  | fork {s : Spaces} {i j : Slot} {mem : Memory} {success : Bool} (parent : s.live i)
      (empty : ¬ s.live j)
      (done : s.mem.shareSegment (segmentBase j) (segmentBase i) segmentLimit = some (mem, success)) :
      Step s (.fork i j success)
        { mem, live := if success then Function.update s.live j true else s.live }
  | write {s : Spaces} {j : Slot} {off : Nat} {b : BitVec 8} {mem : Memory} (user : j ≠ 0)
      (live : s.live j) (inside : off < segmentSize)
      (done : s.mem.userWrite (linear j off) b = some mem) : Step s (.write j off b) { s with mem }

def system : Transition.System Spaces Action where
  init s := (∃ m : Memory, m.Booted ∧ m.initMemory 0x2000000 = some s.mem) ∧
    s.live = fun i => decide (i = 0)
  step := Step

/-- What a task reads. -/
def view (s : Spaces) (nr : Slot) (off : Nat) : Option (BitVec 8) := s.mem.view nr off

end Spaces

/-! ### The boot state -/

theorem initMemory_memMap {m m' : Memory} (done : m.initMemory 0x2000000 = some m') :
    m'.page = m.page ∧ (∀ f < 2048, m'.memMap f = 100) ∧ ∀ f, Main f → m'.memMap f = 0 := by
  have result : m' = { m with memMap := fun i =>
      (if i < pagesSize then
        if (i : Int) ≤ 2047 then 100 else if (i : Int) ≤ 8191 then 0 else m.memMap i
      else m.memMap i) } := (Option.some.inj done).symm
  rw [result]
  refine ⟨rfl, ?_, ?_⟩
  · intro f low
    have inside : f < pagesSize := by
      simp only [pagesSize]
      omega
    simp only [inside, if_true]
    rw [if_pos (by omega)]
  · intro f main
    have := main.1
    have := main.2
    simp only [pagesSize] at this
    simp only [main.2, if_true]
    rw [if_neg (by omega), if_pos (by omega)]

theorem Memory.Booted.paged {m m' : Memory} (booted : m.Booted)
    (done : m.initMemory 0x2000000 = some m') : Paged m' fun _ => 0 := by
  obtain ⟨page, reserved, free⟩ := initMemory_memMap done
  -- no task has a table yet, so nothing is mapped and nothing counted
  have dirs : ∀ d, m'.dirTarget d = none := by
    intro d
    have absent := booted.empty d
    simp only [Memory.dirTarget, page]
    rw [if_neg]
    rintro ⟨user, present⟩
    exact absent (by omega) d.isLt present
  have looks : ∀ i, m'.look i = none := by
    intro i
    simp [Memory.look, dirs]
  constructor
  · rw [page]
    exact booted.identityDir
  · rw [page]
    exact booted.identity
  · intro d high present
    rw [page] at present
    exact absurd present (booted.empty d high d.isLt)
  · intro d k f w found
    rw [looks] at found
    cases found
  · intro d k d' k' f w w' found
    rw [looks] at found
    cases found
  · exact reserved
  · have unmapped : ∀ f, Sharing.refs m'.look f = 0 := by
      intro f
      exact Sharing.count_eq_zero.mpr (by simp [looks])
    have unused : ∀ f, m'.tables f = 0 := by
      intro f
      exact Sharing.count_eq_zero.mpr (by simp [dirs])
    constructor
    · intro f main
      simp [unmapped, unused, free f main]
    · intro f _ used
      simp [unused] at used
    · intro i f found
      rw [looks] at found
      cases found

/-! ### Forks -/

section Fork

variable {m m' : Memory} {pages : Nat → Nat} {i j t : Nat}

theorem Paged.tableOf_ne_zero (paged : Paged m pages) {nr : Nat} (slot : nr < 64)
    (dir : Present (m.page 0 (16 * nr))) : m.tableOf nr ≠ 0 := by
  by_cases kernel : nr = 0
  · rw [kernel, paged.dir_zero.2]
    omega
  · exact paged.table_ne_zero (Memory.dirTarget_slotDir slot kernel dir)

theorem Forked.dir_other (paged : Paged m pages) (forked : Forked m m' i j t) (parent : i < 64)
    (dir : Present (m.page 0 (16 * i))) {nr : Nat} (other : nr ≠ j) :
    m'.page 0 (16 * nr) = m.page 0 (16 * nr) := by
  apply forked.rest
  · exact (paged.tableOf_ne_zero parent dir).symm
  · have := forked.main.1
    omega
  · omega

theorem Forked.mapped_child (forked : Forked m m' i j t) (parent : m.Mapped i) : m'.Mapped j := by
  constructor
  · rw [forked.dir]
    exact present_freshEntry t
  · intro k small
    rw [Memory.tableOf, forked.dir, frame_freshEntry forked.main.small, ← (forked.copy k small).1,
      ← (forked.source k).1]
    exact parent.entry k small

theorem Forked.mapped_other (paged : Paged m pages) (forked : Forked m m' i j t) (parent : i < 64)
    (dir : Present (m.page 0 (16 * i))) {nr : Nat} (slot : nr < 64) (other : nr ≠ j)
    (mapped : m.Mapped nr) : m'.Mapped nr := by
  have sameDir := forked.dir_other paged parent dir other
  -- the new table is no table of another task
  have apart : m.tableOf nr ≠ t := by
    by_cases kernel : nr = 0
    · rw [kernel, paged.dir_zero.2]
      have := forked.main.1
      omega
    · intro same
      exact Sharing.count_eq_zero.mp forked.fresh.1 _
        (same ▸ Memory.dirTarget_slotDir slot kernel mapped.dir)
  constructor
  · rw [sameDir]
    exact mapped.dir
  · intro k small
    rw [Memory.tableOf, sameDir]
    by_cases source : m.tableOf nr = m.tableOf i
    · have kept := (forked.source k).1
      rw [← source] at kept
      exact kept.mp (mapped.entry k small)
    · rw [← Memory.tableOf, forked.rest _ _ source apart fun zero =>
        absurd zero (paged.tableOf_ne_zero slot mapped.dir)]
      exact mapped.entry k small

/-- The parent and the child of a fork read the same bytes. -/
theorem Forked.view_eq (paged : Paged m pages) (forked : Forked m m' i j t) (parent : i < 64)
    (child : j < 64) (other : i ≠ j) (mapped : m.Mapped i) {off : Nat} (inside : off < segmentSize) :
    ∃ b, m'.view j off = some b ∧ m'.view i off = some b := by
  have index : off / 4096 < 160 := by
    simp only [segmentSize] at inside
    omega
  have copied := forked.mapped_child mapped
  have kept := forked.mapped_other paged parent mapped.dir parent other mapped
  have sameTable : m'.tableOf i = m.tableOf i := by
    rw [Memory.tableOf, forked.dir_other paged parent mapped.dir other, Memory.tableOf]
  have childTable : m'.tableOf j = t := by
    rw [Memory.tableOf, forked.dir, frame_freshEntry forked.main.small]
  refine ⟨_, copied.view child inside, ?_⟩
  rw [kept.view parent inside, sameTable, childTable,
    (forked.copy _ index).2 (sameTable ▸ kept.entry _ index)]

/-- A fork into an empty slot fails and changes nothing, or shares the segment. -/
theorem Paged.shareSegment (paged : Paged m pages) (parent : i < 64) (child : j < 64) (user : j ≠ 0)
    (other : i ≠ j) (empty : ¬ Present (m.page 0 (16 * j))) (dir : Present (m.page 0 (16 * i))) :
    m.shareSegment (segmentBase j) (segmentBase i) segmentLimit = some (m, false) ∧
        m.getFreePage = (m, 0) ∨
      ∃ m' t, m.shareSegment (segmentBase j) (segmentBase i) segmentLimit = some (m', true) ∧
        Paged m' pages ∧ Forked m m' i j t := by
  rcases paged.copyPageTables parent child user other empty dir with
    ⟨failed, full⟩ | ⟨m', t, done, paged', forked⟩
  · left
    have one : ((segmentLimit + 0x3fffff) >>> 22).toNat = 1 := by decide
    have base : segmentBase j ≠ 0 := fun zero => user ((segmentBase_eq_zero child).mp zero)
    -- the child has no table, so nothing is freed
    have nothing : m.freePageTables (segmentBase j) segmentLimit = some (m, 0) := by
      rw [Memory.freePageTables, if_neg (by rw [segmentBase_aligned child]; decide), if_neg base, one,
        dirIndex_segmentBase child, Memory.freeDirs, if_pos empty]
      rfl
    refine ⟨?_, full⟩
    rw [Memory.shareSegment, failed]
    simp only [nothing]
    rw [if_pos (by decide)]
    rfl
  · right
    refine ⟨m', t, ?_, paged', forked⟩
    rw [Memory.shareSegment, done]
    rfl

end Fork

/-! ### Writes -/

section Write

variable {m m' : Memory} {pages : Nat → Nat} {j t f : Nat} {k : Fin 1024}

/-- An entry other than an unshared one, and the page behind it, are untouched. -/
theorem Unshared.elsewhere (paged : Paged m pages) (paged' : Paged m' pages) (slot : j < 64)
    (table : m.dirTarget (slotDir j slot) = some t) (unshared : Unshared m m' t k f) {n l : Nat}
    (slot' : n < 64) (index : l < 1024) (other : n ≠ j ∨ l ≠ k.val)
    (dir : Present (m.page 0 (16 * n))) :
    m.tableOf n ≠ f ∧ m'.page (m.tableOf n) l = m.page (m.tableOf n) l ∧
      (Present (m.page (m.tableOf n) l) → frame (m.page (m.tableOf n) l) ≠ f ∧
        m'.page (frame (m.page (m.tableOf n) l)) = m.page (frame (m.page (m.tableOf n) l))) := by
  have dir' : ∀ d, m'.page 0 d = m.page 0 d := by
    intro d
    have low := unshared.main.1
    apply unshared.rest
    · omega
    · intro zero
      exact absurd zero.symm (paged.table_ne_zero table)
  have dirs : m'.dirTarget = m.dirTarget := by
    funext d
    simp only [Memory.dirTarget, dir']
  have main_t := paged.main_of_dirTarget table
  by_cases kernel : n = 0
  · -- the identity table and the frames it maps lie below main memory
    subst kernel
    have low := unshared.main.1
    have low_t := main_t.1
    rw [paged.dir_zero.2, paged.identity_zero index, frame_freshEntry (by omega)]
    refine ⟨by omega, ?_, fun _ => ⟨by omega, ?_⟩⟩
    · rw [unshared.rest 1 l (by omega) (by omega), paged.identity_zero index]
    · funext w
      exact unshared.rest l w (by omega) (by omega)
  · have table_n := Memory.dirTarget_slotDir slot' kernel dir
    have table' : m'.dirTarget (slotDir j slot) = some t := by rw [dirs, table]
    -- the fresh frame has one user only, so no other entry leads to it
    have owned : m'.look (slotDir j slot, k) = some (f, true) := by
      rw [Memory.look_of_dirTarget table', decode_eq_some]
      exact ⟨unshared.entry.1, unshared.entry.2.2, by simp [unshared.entry.2.1]⟩
    have notFresh : m.tableOf n ≠ f := by
      intro same
      have notTable : m'.dirTarget (slotDir n slot') ≠ some f := paged'.not_table_of_mapped owned
      rw [dirs, table_n, same] at notTable
      exact notTable rfl
    have sameEntry : m'.page (m.tableOf n) l = m.page (m.tableOf n) l := by
      apply unshared.rest _ _ notFresh
      intro same
      have := congrArg Fin.val (paged.table_unique (same ▸ table_n) table)
      simp only [slotDir] at this
      omega
    refine ⟨notFresh, sameEntry, fun present => ?_⟩
    have mapped : m'.look (slotDir n slot', ⟨l, index⟩) =
        some (frame (m.page (m.tableOf n) l), decide (Writable (m.page (m.tableOf n) l))) := by
      rw [Memory.look_of_dirTarget (dirs ▸ table_n), decode_eq_some, sameEntry]
      exact ⟨present, rfl, rfl⟩
    have notOwned : frame (m.page (m.tableOf n) l) ≠ f := by
      intro same
      rw [same] at mapped
      obtain ⟨dirs_eq, index_eq⟩ := Prod.mk.inj (paged'.sound.unique owned mapped)
      have slots : 16 * n = 16 * j := congrArg Fin.val dirs_eq
      have indices : l = k.val := congrArg Fin.val index_eq
      omega
    have notTable : frame (m.page (m.tableOf n) l) ≠ t := by
      intro same
      exact paged'.not_table_of_mapped mapped (same ▸ table')
    refine ⟨notOwned, ?_⟩
    funext w
    exact unshared.rest _ w notOwned fun same => absurd same notTable

/-- Before a store the entry ends up alone on its frame, with or without a fault. -/
theorem Paged.unshare (paged : Paged m pages) (slot : j < 64) (user : j ≠ 0) (mapped : m.Mapped j)
    {off : Nat} (inside : off < segmentSize) (b : BitVec 8) :
    (m.userWrite (linear j off) b = none ∧ m.getFreePage = (m, 0)) ∨
      ∃ m' f, m.userWrite (linear j off) b = m'.storeByte (linear j off) b ∧ Paged m' pages ∧
        Unshared m m' (m.tableOf j) (off / 4096) f := by
  have index : off / 4096 < 160 := by
    simp only [segmentSize] at inside
    omega
  have table := Memory.dirTarget_slotDir slot user mapped.dir
  have present := mapped.entry _ index
  have walk := mapped.walk slot inside
  -- a writable entry has its frame for itself already
  by_cases writable : Writable (m.page (m.tableOf j) (off / 4096))
  · right
    refine ⟨m, frame (m.page (m.tableOf j) (off / 4096)), ?_, paged, ?_⟩
    · simp [Memory.userWrite, walk, writable]
    · have owned : m.look (slotDir j slot, ⟨off / 4096, by omega⟩) =
          some (frame (m.page (m.tableOf j) (off / 4096)), true) := by
        rw [Memory.look_of_dirTarget table, decode_eq_some]
        exact ⟨present, rfl, by simp [writable]⟩
      exact ⟨(paged.sound.owned _ _ owned).1, ⟨present, writable, rfl⟩, rfl, Or.inl rfl,
        fun g l _ _ => rfl⟩
  · -- the write faults, and the fault gives the entry a frame of its own
    have entry : m.writeProtectPage (linear j off) =
        m.unWriteProtectPage (m.tableOf j) (off / 4096) := by
      rw [Memory.writeProtectPage, dirIndex_linear slot inside, tableIndex_linear slot inside]
      rfl
    have fault : m.userWrite (linear j off) b =
        (m.unWriteProtectPage (m.tableOf j) (off / 4096)).bind fun m =>
          m.storeByte (linear j off) b := by
      simp [Memory.userWrite, walk, writable, entry]
    rcases paged.unWriteProtectPage (k := ⟨off / 4096, by omega⟩) table present with
      ⟨hangs, full⟩ | ⟨m', f, done, paged', unshared⟩
    · left
      exact ⟨by rw [fault, hangs]; rfl, full⟩
    · right
      exact ⟨m', f, by rw [fault, done]; rfl, paged', unshared⟩

/-- A task of slot `j` has written the byte `b` at an offset. -/
structure Written (m m' : Memory) (j off : Nat) (b : BitVec 8) : Prop where
  dir : ∀ d, m'.page 0 d = m.page 0 d
  present : Present (m'.page (m.tableOf j) (off / 4096))
  content : m'.page (frame (m'.page (m.tableOf j) (off / 4096))) =
    Memory.setByte (m.page (frame (m.page (m.tableOf j) (off / 4096)))) (off % 4096) b
  elsewhere : ∀ n l, n < 64 → l < 1024 → (n ≠ j ∨ l ≠ off / 4096) → Present (m.page 0 (16 * n)) →
    m'.page (m.tableOf n) l = m.page (m.tableOf n) l ∧ (Present (m.page (m.tableOf n) l) →
      m'.page (frame (m.page (m.tableOf n) l)) = m.page (frame (m.page (m.tableOf n) l)))

/-- The store to an unshared page. -/
theorem Unshared.storeByte (paged : Paged m pages) (paged' : Paged m' pages) (slot : j < 64)
    (user : j ≠ 0) (mapped : m.Mapped j) {off : Nat} (inside : off < segmentSize)
    (unshared : Unshared m m' (m.tableOf j) (off / 4096) f) (b : BitVec 8) :
    ∃ m'', m'.storeByte (linear j off) b = some m'' ∧ Paged m'' pages ∧ Written m m'' j off b := by
  have index : off / 4096 < 1024 := by
    simp only [segmentSize] at inside
    omega
  have table := Memory.dirTarget_slotDir slot user mapped.dir
  have main := unshared.main
  have low := main.1
  have dir : ∀ d, m'.page 0 d = m.page 0 d := by
    intro d
    exact unshared.rest 0 d (by omega) fun zero => absurd zero.symm (paged.table_ne_zero table)
  have sameTable : m'.tableOf j = m.tableOf j := by
    rw [Memory.tableOf, dir, Memory.tableOf]
  obtain ⟨here, writable, alone⟩ := unshared.entry
  have table' : m'.dirTarget (slotDir j slot) = some (m.tableOf j) := by
    rw [← sameTable]
    exact Memory.dirTarget_slotDir slot user (by rw [dir]; exact mapped.dir)
  have owned : m'.look (slotDir j slot, ⟨off / 4096, index⟩) = some (f, true) := by
    rw [Memory.look_of_dirTarget table', decode_eq_some]
    exact ⟨here, alone, by simp [writable]⟩
  -- the frame written to is not the table through which it is reached
  have notTable : m.tableOf j ≠ f := by
    intro same
    exact paged'.not_table_of_mapped owned (same ▸ table')
  have walk : m'.walk (linear j off) = some (m'.page (m.tableOf j) (off / 4096)) := by
    rw [m'.walk_linear slot inside, sameTable, dir, if_pos ⟨mapped.dir, here⟩]
  have dirWritable : Writable (m'.page 0 (dirIndex (linear j off))) := by
    rw [dirIndex_linear slot inside]
    have entry : Present (m'.page 0 (slotDir j slot)) := by
      rw [dir]
      exact mapped.dir
    have high : 8 ≤ (slotDir j slot).val := by
      simp only [slotDir]
      omega
    exact (paged'.dirs _ high entry).2.2.1
  obtain ⟨stored, _, _⟩ := paged'.scribble main (paged'.mapped_exclusive owned main).1
    (Memory.setByte (m'.page f) (off % 4096) b)
  refine ⟨_, ?_, stored, ?_⟩
  · rw [Memory.storeByte, walk]
    simp [writable, dirWritable, alone, byteIndex_linear slot inside]
  · constructor
    · intro d
      have nonzero : 0 ≠ f := by omega
      simp only [Function.update_of_ne nonzero]
      exact dir d
    · simp only [Function.update_of_ne notTable]
      exact here
    · simp only [Function.update_of_ne notTable, alone, Function.update_self, unshared.content]
    · intro n l slot' index' other dir'
      -- seen from another task, or at another page, nothing has changed
      obtain ⟨notFresh, sameEntry, kept⟩ :=
        unshared.elsewhere (k := ⟨off / 4096, index⟩) paged paged' slot table slot' index' other dir'
      simp only [Function.update_of_ne notFresh]
      refine ⟨sameEntry, fun present => ?_⟩
      obtain ⟨notOwned, same⟩ := kept present
      simp only [Function.update_of_ne notOwned]
      exact same

theorem Written.mapped {off : Nat} {b : BitVec 8} (written : Written m m' j off b) {n : Nat}
    (slot : n < 64) (mapped : m.Mapped n) : m'.Mapped n := by
  constructor
  · rw [written.dir]
    exact mapped.dir
  · intro l small
    rw [Memory.tableOf, written.dir, ← Memory.tableOf]
    by_cases here : n = j ∧ l = off / 4096
    · obtain ⟨rfl, rfl⟩ := here
      exact written.present
    · rw [(written.elsewhere n l slot (by omega) (by omega) mapped.dir).1]
      exact mapped.entry l small

/-- A write is seen by the writing task at its offset, and by nobody else. -/
theorem Written.view {off : Nat} {b : BitVec 8} (written : Written m m' j off b) (slot : j < 64)
    (mapped : m.Mapped j) (inside : off < segmentSize) {n o : Nat} (slot' : n < 64)
    (inside' : o < segmentSize) :
    m'.view n o = if n = j ∧ o = off then some b else m.view n o := by
  have index : o / 4096 < 160 := by
    simp only [segmentSize] at inside'
    omega
  have sameTable : ∀ n, m'.tableOf n = m.tableOf n := by
    intro n
    rw [Memory.tableOf, written.dir, Memory.tableOf]
  -- the page that was written, or another one, whose frame is another too
  by_cases here : n = j ∧ o / 4096 = off / 4096
  · obtain ⟨rfl, page⟩ := here
    rw [(written.mapped slot mapped).view slot inside', mapped.view slot inside', sameTable, page,
      written.content, Memory.byte_setByte]
    have position : o % 4096 = off % 4096 ↔ o = off := by omega
    simp only [position, true_and]
    split <;> rfl
  · rw [if_neg (by rintro ⟨rfl, rfl⟩; exact here ⟨rfl, rfl⟩), m'.view_eq slot' inside',
      m.view_eq slot' inside', written.dir, sameTable]
    by_cases dir : Present (m.page 0 (16 * n))
    · obtain ⟨sameEntry, kept⟩ := written.elsewhere n (o / 4096) slot' (by omega) (by omega) dir
      rw [sameEntry]
      by_cases entry : Present (m.page (m.tableOf n) (o / 4096))
      · rw [kept entry]
      · simp [entry]
    · simp [dir]

/-- A write to a mapped segment hangs for want of a page, or takes place. -/
theorem Paged.userWrite (paged : Paged m pages) (slot : j < 64) (user : j ≠ 0) (mapped : m.Mapped j)
    {off : Nat} (inside : off < segmentSize) (b : BitVec 8) :
    (m.userWrite (linear j off) b = none ∧ m.getFreePage = (m, 0)) ∨
      ∃ m', m.userWrite (linear j off) b = some m' ∧ Paged m' pages ∧ Written m m' j off b := by
  rcases paged.unshare slot user mapped inside b with hangs | ⟨m₁, f, stored, paged₁, unshared⟩
  · exact Or.inl hangs
  · obtain ⟨m', done, paged', written⟩ := unshared.storeByte paged paged₁ slot user mapped inside b
    exact Or.inr ⟨m', stored.trans done, paged', written⟩

end Write

/-! ### Whole runs -/

namespace Spaces

/-- The tables fit the live slots, and every live segment is mapped. -/
structure Sound (s : Spaces) : Prop where
  paged : Paged s.mem fun _ => 0
  zero : s.live 0
  dir : ∀ j : Slot, j ≠ 0 → (s.live j ↔ Present (s.mem.page 0 (16 * j)))
  mapped : ∀ j : Slot, s.live j → s.mem.Mapped j

theorem sound_init {s : Spaces} (start : system.init s) : Sound s := by
  obtain ⟨⟨m, booted, done⟩, live⟩ := start
  have paged := booted.paged done
  have page := (initMemory_memMap done).1
  constructor
  · exact paged
  · simp [live]
  · intro j user
    have nonzero : j.val ≠ 0 := fun zero => user (Fin.ext zero)
    have slot : j.val < 64 := j.isLt
    have absent := booted.empty (16 * j.val) (by omega) (by omega)
    simp [live, user, page, absent]
  · intro j alive
    obtain rfl : j = 0 := by simpa [live] using alive
    exact paged.mapped_zero

/-- A fork from a sound state, by its outcome. -/
theorem Sound.fork {s s' : Spaces} {i j : Slot} {success : Bool} (sound : Sound s)
    (taken : Step s (.fork i j success) s') :
    Sound s' ∧ (success = true → ∀ off < segmentSize, ∃ b,
      s'.view j off = some b ∧ s'.view i off = some b) := by
  cases taken with
  | @fork _ _ mem _ parent empty done =>
    have user : j ≠ 0 := by
      rintro rfl
      exact empty sound.zero
    have other : i.val ≠ j.val := by
      intro same
      exact empty (Fin.ext same ▸ parent)
    have nonzero : j.val ≠ 0 := fun zero => user (Fin.ext zero)
    have absent := fun present => empty ((sound.dir j user).mpr present)
    have source := sound.mapped i parent
    rcases sound.paged.shareSegment i.isLt j.isLt nonzero other absent source.dir with
      ⟨failed, _⟩ | ⟨m', t, shared, paged', forked⟩
    · obtain ⟨rfl, rfl⟩ : s.mem = mem ∧ false = success := by simpa [failed] using done
      exact ⟨sound, by simp⟩
    · obtain ⟨rfl, rfl⟩ : m' = mem ∧ true = success := by simpa [shared] using done
      refine ⟨?_, fun _ off inside =>
        forked.view_eq sound.paged i.isLt j.isLt other source inside⟩
      constructor
      · exact paged'
      · simp [sound.zero, user.symm]
      · intro n user'
        -- the child sees the parent's pages, every other task its own
        by_cases child : n = j
        · subst child
          simp [forked.dir]
        · have apart : n.val ≠ j.val := fun same => child (Fin.ext same)
          simp only [if_true, Function.update_of_ne child]
          rw [forked.dir_other sound.paged i.isLt source.dir apart]
          exact sound.dir n user'
      · intro n alive
        by_cases child : n = j
        · subst child
          exact forked.mapped_child source
        · have apart : n.val ≠ j.val := fun same => child (Fin.ext same)
          simp only [if_true, Function.update_of_ne child] at alive
          exact forked.mapped_other sound.paged i.isLt source.dir n.isLt apart (sound.mapped n alive)

/-- A write from a sound state. -/
theorem Sound.write {s s' : Spaces} {j : Slot} {off : Nat} {b : BitVec 8} (sound : Sound s)
    (taken : Step s (.write j off b) s') :
    Sound s' ∧ ∀ n : Slot, ∀ o < segmentSize,
      s'.view n o = if n = j ∧ o = off then some b else s.view n o := by
  cases taken with
  | @write _ _ _ mem user live inside done =>
    have nonzero : j.val ≠ 0 := fun zero => user (Fin.ext zero)
    have source := sound.mapped j live
    rcases sound.paged.userWrite j.isLt nonzero source inside b with
      ⟨hangs, _⟩ | ⟨m', stored, paged', written⟩
    · rw [hangs] at done
      cases done
    · obtain rfl : m' = mem := Option.some.inj (stored.symm.trans done)
      constructor
      · constructor
        · exact paged'
        · exact sound.zero
        · intro n user'
          rw [written.dir]
          exact sound.dir n user'
        · intro n alive
          exact written.mapped n.isLt (sound.mapped n alive)
      · intro n o inside'
        have same := written.view j.isLt source inside n.isLt inside'
        simpa only [view, Fin.ext_iff] using same

theorem sound_of_run {hist : List (Spaces × Action)} {s : Spaces}
    (run : Transition.Run system hist s) : Sound s := by
  apply Transition.Reachable.invariant (S := system) (I := Sound) (fun _ => sound_init) _ ⟨hist, run⟩
  intro s a s' sound taken
  cases a with
  | fork i j success => exact (sound.fork taken).1
  | write j off b => exact (sound.write taken).1

/-- In every run, right after a successful fork the parent and the child read
the same bytes, and a write changes what the writing task reads at its offset
and nothing that another task reads. -/
theorem copyOnWrite_isolates {hist : List (Spaces × Action)} {s : Spaces}
    (run : Transition.Run system hist s) :
    (∀ i j s', Step s (.fork i j true) s' → ∀ off < segmentSize,
      ∃ b, s'.view j off = some b ∧ s'.view i off = some b) ∧
    (∀ j off b s', Step s (.write j off b) s' → ∀ n : Slot, n ≠ j → ∀ o < segmentSize,
      s'.view n o = s.view n o) := by
  have sound := sound_of_run run
  constructor
  · intro i j s' taken
    exact (sound.fork taken).2 rfl
  · intro j off b s' taken n other o inside
    rw [(sound.write taken).2 n o inside, if_neg (by simp [other])]

/-! ### A run with a fork -/

/-- Memory that is zero but for the directory and the identity tables. -/
def bootMemory : Memory where
  page f k :=
    if f = 0 then if k < 8 then freshEntry (k + 1) else 0
    else if f ≤ 8 then freshEntry (1024 * (f - 1) + k) else 0
  memMap f := if f = 0 then -1 else 0

theorem booted_bootMemory : bootMemory.Booted := by
  constructor
  · intro d small
    simp [bootMemory, small]
  · intro d small k _
    simp [bootMemory, show d + 1 ≤ 8 by omega]
  · intro d high _
    simp only [bootMemory, if_true, if_neg (show ¬ d < 8 by omega)]
    decide

theorem init_bootMemory : ∃ s, system.init s ∧ s.mem.page = bootMemory.page ∧
    s.live = (fun i => decide (i = 0)) ∧ ∀ f, Main f → s.mem.memMap f = 0 := by
  have initialised : ∃ mem, bootMemory.initMemory 0x2000000 = some mem := ⟨_, rfl⟩
  obtain ⟨mem, done⟩ := initialised
  obtain ⟨page, _, free⟩ := initMemory_memMap done
  exact ⟨⟨mem, fun i => decide (i = 0)⟩, ⟨⟨bootMemory, booted_bootMemory, done⟩, rfl⟩, page, rfl, free⟩

/-- Right after boot task 0 can fork into slot 1. -/
theorem forked_boot : ∃ s s' t, system.init s ∧ s.mem.page = bootMemory.page ∧
    Step s (.fork 0 1 true) s' ∧ s'.live 1 ∧ Forked s.mem s'.mem 0 1 t := by
  obtain ⟨s, start, page, live, free⟩ := init_bootMemory
  have sound := sound_init start
  have empty : ¬ s.live 1 := by simp [live]
  have absent := fun present => empty ((sound.dir 1 (by decide)).mpr present)
  rcases sound.paged.shareSegment (i := 0) (j := 1) (by decide) (by decide) (by decide) (by decide)
    absent sound.paged.mapped_zero.dir with ⟨_, full⟩ | ⟨m', t, shared, _, forked⟩
  · -- the first frame of main memory is still free
    have used := Memory.used_of_getFreePage full 2048 (by decide)
    exact absurd (free 2048 ⟨by decide, by decide⟩) used
  · refine ⟨s, ⟨m', Function.update s.live 1 true⟩, t, start, page, .fork sound.zero empty shared, ?_, forked⟩
    simp

theorem forked_run : ∃ s s', Transition.Run system [(s, .fork 0 1 true)] s' := by
  obtain ⟨s, s', _, start, _, taken, _⟩ := forked_boot
  exact ⟨s, s', .step (.init start) taken⟩

theorem copyOnWrite_isolates_forked : ∃ s s', Transition.Run system [(s, .fork 0 1 true)] s' ∧
    (∀ i j s'', Step s' (.fork i j true) s'' → ∀ off < segmentSize,
      ∃ b, s''.view j off = some b ∧ s''.view i off = some b) ∧
    (∀ j off b s'', Step s' (.write j off b) s'' → ∀ n : Slot, n ≠ j → ∀ o < segmentSize,
      s''.view n o = s'.view n o) := by
  obtain ⟨s, s', run⟩ := forked_run
  exact ⟨s, s', run, copyOnWrite_isolates run⟩

end Spaces

end OperatorSystem.Mm
