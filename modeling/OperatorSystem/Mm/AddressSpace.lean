import OperatorSystem.Mm.PageFunctions

/-!
# The address spaces of the task slots

Slot `nr` has the 64 MB of linear addresses from `nr * 0x4000000` on, of which
its segments reach the first 640 KB. The module follows `copyPageTables` and
`writeProtectPage` on these addresses.
-/

namespace OperatorSystem.Mm

def segmentBase (nr : Nat) : BitVec 32 := BitVec.ofNat 32 (nr * 0x4000000)

/-- The linear address of an offset in the segment of slot `nr`. -/
def linear (nr off : Nat) : BitVec 32 := segmentBase nr + BitVec.ofNat 32 off

/-- The limit of the segments, in bytes. -/
def segmentLimit : BitVec 32 := 0x9FFFF

/-- The size of the segments: 160 pages. -/
def segmentSize : Nat := 0xA0000

/-! ### Linear addresses -/

theorem toNat_linear {nr off : Nat} (slot : nr < 64) (inside : off < segmentSize) :
    (linear nr off).toNat = nr * 0x4000000 + off := by
  have small : off < 655360 := inside
  rw [linear, segmentBase, BitVec.toNat_add, BitVec.toNat_ofNat, BitVec.toNat_ofNat]
  rw [Nat.mod_eq_of_lt (a := off) (by omega), Nat.mod_eq_of_lt (a := nr * 0x4000000) (by omega)]
  exact Nat.mod_eq_of_lt (by omega)

theorem dirIndex_eq (a : BitVec 32) : dirIndex a = a.toNat / 0x400000 := by
  simp [dirIndex, Nat.shiftRight_eq_div_pow]

theorem tableIndex_eq (a : BitVec 32) : tableIndex a = a.toNat / 4096 % 1024 := by
  rw [tableIndex, BitVec.toNat_and]
  change (a >>> 12).toNat &&& (2 ^ 10 - 1) = _
  rw [Nat.and_two_pow_sub_one_eq_mod, BitVec.toNat_ushiftRight, Nat.shiftRight_eq_div_pow]

theorem byteIndex_eq (a : BitVec 32) : byteIndex a = a.toNat % 4096 := by
  rw [byteIndex, BitVec.toNat_and]
  change a.toNat &&& (2 ^ 12 - 1) = _
  rw [Nat.and_two_pow_sub_one_eq_mod]

theorem dirIndex_linear {nr off : Nat} (slot : nr < 64) (inside : off < segmentSize) :
    dirIndex (linear nr off) = 16 * nr := by
  rw [dirIndex_eq, toNat_linear slot inside]
  simp only [segmentSize] at inside
  omega

theorem tableIndex_linear {nr off : Nat} (slot : nr < 64) (inside : off < segmentSize) :
    tableIndex (linear nr off) = off / 4096 := by
  rw [tableIndex_eq, toNat_linear slot inside]
  simp only [segmentSize] at inside
  omega

theorem byteIndex_linear {nr off : Nat} (slot : nr < 64) (inside : off < segmentSize) :
    byteIndex (linear nr off) = off % 4096 := by
  rw [byteIndex_eq, toNat_linear slot inside]
  omega

theorem toNat_segmentBase {nr : Nat} (slot : nr < 64) : (segmentBase nr).toNat = nr * 0x4000000 := by
  simp only [segmentBase, BitVec.toNat_ofNat]
  omega

theorem dirIndex_segmentBase {nr : Nat} (slot : nr < 64) : dirIndex (segmentBase nr) = 16 * nr := by
  rw [dirIndex_eq, toNat_segmentBase slot]
  omega

theorem segmentBase_aligned {nr : Nat} (slot : nr < 64) : segmentBase nr &&& 0x3fffff = 0 := by
  apply BitVec.eq_of_toNat_eq
  rw [BitVec.toNat_and, toNat_segmentBase slot]
  change nr * 0x4000000 &&& (2 ^ 22 - 1) = 0
  rw [Nat.and_two_pow_sub_one_eq_mod]
  omega

theorem segmentBase_eq_zero {nr : Nat} (slot : nr < 64) : segmentBase nr = 0 ↔ nr = 0 := by
  constructor
  · intro zero
    have := congrArg BitVec.toNat zero
    rw [toNat_segmentBase slot] at this
    simp only [BitVec.ofNat_eq_ofNat, BitVec.toNat_ofNat] at this
    omega
  · rintro rfl
    rfl

/-! ### The tables of a slot -/

/-- The directory entry of the first 4 MB of a slot. -/
def slotDir (nr : Nat) (slot : nr < 64) : Fin 1024 := ⟨16 * nr, by omega⟩

namespace Memory

/-- The page table of a slot. -/
def tableOf (m : Memory) (nr : Nat) : Nat := frame (m.page 0 (16 * nr))

/-- The segment of the slot is mapped as far as its limit. -/
structure Mapped (m : Memory) (nr : Nat) : Prop where
  dir : Present (m.page 0 (16 * nr))
  entry : ∀ k < 160, Present (m.page (m.tableOf nr) k)

/-- The byte a task of slot `nr` reads at an offset. -/
def view (m : Memory) (nr off : Nat) : Option (BitVec 8) := m.readByte (linear nr off)

theorem walk_linear (m : Memory) {nr off : Nat} (slot : nr < 64) (inside : off < segmentSize) :
    m.walk (linear nr off) =
      if Present (m.page 0 (16 * nr)) ∧ Present (m.page (m.tableOf nr) (off / 4096)) then
        some (m.page (m.tableOf nr) (off / 4096)) else none := by
  rw [walk, dirIndex_linear slot inside, tableIndex_linear slot inside]
  rfl

theorem Mapped.walk {m : Memory} {nr off : Nat} (mapped : m.Mapped nr) (slot : nr < 64)
    (inside : off < segmentSize) :
    m.walk (linear nr off) = some (m.page (m.tableOf nr) (off / 4096)) := by
  have index : off / 4096 < 160 := by
    simp only [segmentSize] at inside
    omega
  rw [m.walk_linear slot inside, if_pos ⟨mapped.dir, mapped.entry _ index⟩]

theorem view_eq (m : Memory) {nr off : Nat} (slot : nr < 64) (inside : off < segmentSize) :
    m.view nr off =
      if Present (m.page 0 (16 * nr)) ∧ Present (m.page (m.tableOf nr) (off / 4096)) then
        some (byte (m.page (frame (m.page (m.tableOf nr) (off / 4096)))) (off % 4096)) else none := by
  rw [view, readByte, m.walk_linear slot inside, byteIndex_linear slot inside]
  split <;> rfl

theorem Mapped.view {m : Memory} {nr off : Nat} (mapped : m.Mapped nr) (slot : nr < 64)
    (inside : off < segmentSize) :
    m.view nr off =
      some (byte (m.page (frame (m.page (m.tableOf nr) (off / 4096)))) (off % 4096)) := by
  have index : off / 4096 < 160 := by
    simp only [segmentSize] at inside
    omega
  rw [m.view_eq slot inside, if_pos ⟨mapped.dir, mapped.entry _ index⟩]

theorem dirTarget_slotDir {m : Memory} {nr : Nat} (slot : nr < 64) (user : nr ≠ 0)
    (present : Present (m.page 0 (16 * nr))) : m.dirTarget (slotDir nr slot) = some (m.tableOf nr) := by
  rw [dirTarget_eq_some]
  refine ⟨?_, present, rfl⟩
  simp only [slotDir]
  omega

end Memory

theorem Paged.dir_zero {m : Memory} {pages : Nat → Nat} (paged : Paged m pages) :
    Present (m.page 0 0) ∧ m.tableOf 0 = 1 := by
  have entry := paged.identityDir 0 (by omega)
  simp only [Memory.tableOf, Nat.mul_zero, entry]
  exact ⟨present_freshEntry 1, frame_freshEntry (by omega)⟩

theorem Paged.identity_zero {m : Memory} {pages : Nat → Nat} (paged : Paged m pages) {k : Nat}
    (small : k < 1024) : m.page 1 k = freshEntry k := by
  have entry := paged.identity 0 (by omega) k small
  simp only [Nat.zero_add, Nat.mul_zero] at entry
  exact entry

/-- Task 0 is always mapped, onto the frames of the same numbers. -/
theorem Paged.mapped_zero {m : Memory} {pages : Nat → Nat} (paged : Paged m pages) : m.Mapped 0 := by
  obtain ⟨dir, table⟩ := paged.dir_zero
  constructor
  · exact dir
  · intro k small
    rw [table, paged.identity_zero (by omega)]
    exact present_freshEntry k

/-! ### `copyPageTables` between two slots -/

/-- Slot `j` has got a table of its own that shares the pages of slot `i`. -/
structure Forked (m m' : Memory) (i j t : Nat) : Prop where
  dir : m'.page 0 (16 * j) = freshEntry t
  main : Main t
  fresh : m.tables t = 0 ∧ m.mappings t = 0
  copy : ∀ l < 160, SameFrame (m'.page (m.tableOf i) l) (m'.page t l)
  source : ∀ l, SameFrame (m.page (m.tableOf i) l) (m'.page (m.tableOf i) l)
  rest : ∀ g l, g ≠ m.tableOf i → g ≠ t → (g = 0 → l ≠ 16 * j) → m'.page g l = m.page g l

theorem copyPageTables_segment (m : Memory) {i j : Nat} (parent : i < 64) (child : j < 64) :
    m.copyPageTables (segmentBase j) (segmentBase i) (segmentLimit + 1) =
      m.copyDirs (if i = 0 then 0xA0 else 1024) 1 (16 * j) (16 * i) := by
  have one : ((segmentLimit + 1 + 0x3fffff) >>> 22).toNat = 1 := by decide
  simp only [Memory.copyPageTables, segmentBase_aligned parent, segmentBase_aligned child, one,
    segmentBase_eq_zero parent, dirIndex_segmentBase parent, dirIndex_segmentBase child,
    ne_eq, not_true_eq_false, or_self, if_false]

/-- A copy into an empty slot finds no page for the table and changes nothing,
or shares the whole segment. -/
theorem Paged.copyPageTables {m : Memory} {pages : Nat → Nat} (paged : Paged m pages) {i j : Nat}
    (parent : i < 64) (child : j < 64) (user : j ≠ 0) (other : i ≠ j)
    (empty : ¬ Present (m.page 0 (16 * j))) (dir : Present (m.page 0 (16 * i))) :
    (m.copyPageTables (segmentBase j) (segmentBase i) (segmentLimit + 1) = (m, -1) ∧ m.getFreePage = (m, 0)) ∨
      ∃ m' t, m.copyPageTables (segmentBase j) (segmentBase i) (segmentLimit + 1) = (m', 0) ∧
        Paged m' pages ∧ Forked m m' i j t := by
  rw [copyPageTables_segment m parent child]
  simp only [Memory.copyDirs, empty, dir, if_false, not_true_eq_false]
  -- one directory entry is copied: it fails only for want of a page
  rcases paged.getFreePage with failed | ⟨t, main, unused, found, nonzero, claimed, _, dirs⟩
  · left
    simp [failed]
  · right
    simp only [found, nonzero, if_false, frame_pageAddr main.small]
    have nonzero_t : t ≠ 0 := by
      have := main.1
      omega
    have cleared : ∀ k, (m.claimPage t).page t k = 0 := by
      intro k
      simp [Memory.claimPage]
    have kept : ∀ g l, g ≠ t → (m.claimPage t).page g l = m.page g l := by
      intro g l apart
      simp [Memory.claimPage, apart]
    have absent : ¬ Present ((m.claimPage t).page 0 (slotDir j child)) := by
      rw [kept 0 _ nonzero_t.symm]
      exact empty
    have slot : (slotDir j child).val % 16 = 0 := by
      simp only [slotDir]
      omega
    have high : 16 ≤ (slotDir j child).val := by
      simp only [slotDir]
      omega
    obtain ⟨linked, tables, _⟩ := claimed.linkTable main unused.2.2 cleared slot high absent
    change Paged ((m.claimPage t).setEntry 0 (16 * j) (freshEntry t)) pages at linked
    change ((m.claimPage t).setEntry 0 (16 * j) (freshEntry t)).dirTarget = _ at tables
    have table : ((m.claimPage t).setEntry 0 (16 * j) (freshEntry t)).dirTarget (slotDir j child) =
        some t := by
      rw [tables, Function.update_self]
    -- task 0 gives its kernel pages, every other task a table of its own
    have source : ∀ l, 0 ≤ l → l < 0 + (if i = 0 then 0xA0 else 1024) →
        Source ((m.claimPage t).setEntry 0 (16 * j) (freshEntry t)) (slotDir j child) (m.tableOf i) l := by
      intro l _ small
      by_cases kernel : i = 0
      · right
        simp only [kernel, if_true] at small
        rw [kernel]
        exact ⟨paged.dir_zero.2, by omega⟩
      · left
        have apart : slotDir i parent ≠ slotDir j child := by
          intro same
          have := congrArg Fin.val same
          simp only [slotDir] at this
          omega
        refine ⟨slotDir i parent, apart, ?_⟩
        rw [tables, Function.update_of_ne apart, dirs]
        exact Memory.dirTarget_slotDir parent kernel dir
    have zeroed : ∀ l, 0 ≤ l → l < 0 + (if i = 0 then 0xA0 else 1024) →
        ¬ Present (((m.claimPage t).setEntry 0 (16 * j) (freshEntry t)).page t l) := by
      intro l _ _
      rw [Memory.setEntry_page, if_neg (by simp [nonzero_t]), cleared]
      decide
    have apart := Source.apart linked table (source 0 (by omega) (by split <;> omega))
    obtain ⟨copied, done⟩ := linked.copyEntries table (by split <;> omega) apart source zeroed
    refine ⟨((m.claimPage t).setEntry 0 (16 * j) (freshEntry t)).copyEntries (m.tableOf i) t
      (if i = 0 then 0xA0 else 1024) 0, t, rfl, copied, ?_⟩
    have tableOf_ne_zero : m.tableOf i ≠ 0 := by
      by_cases kernel : i = 0
      · rw [kernel, paged.dir_zero.2]
        omega
      · exact paged.table_ne_zero (Memory.dirTarget_slotDir parent kernel dir)
    -- the new table holds the copies, and only the write bits of the source have changed
    constructor
    · rw [done.rest 0 _ tableOf_ne_zero.symm fun same => absurd same.symm nonzero_t]
      simp [Memory.setEntry_page]
    · exact main
    · exact ⟨unused.2.1, unused.1⟩
    · intro l small
      exact done.copy l (by omega) (by split <;> omega)
    · intro l
      have before : ((m.claimPage t).setEntry 0 (16 * j) (freshEntry t)).page (m.tableOf i) l =
          m.page (m.tableOf i) l := by
        rw [Memory.setEntry_page, if_neg (by simp [tableOf_ne_zero]), kept _ _ apart]
      rw [← before]
      exact done.source l
    · intro g l notSource notTable elsewhere
      rw [done.rest g l notSource fun same => absurd same notTable, Memory.setEntry_page,
        if_neg (by rintro ⟨same, index⟩; exact elsewhere same index), kept _ _ notTable]

end OperatorSystem.Mm
