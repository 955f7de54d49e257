import Mathlib.Data.BitVec
import Mathlib.Data.List.Find
import Mathlib.Logic.Function.Basic

/-!
# Physical memory and the page functions (`memory.c`)

Physical memory is kept by page frames: `page f k` is the `k`-th 32-bit word of
the frame with number `f`, that is of the physical address `f * 4096 + k * 4`.
The page directory is frame 0 (`PAGE_DIR`), and linear equals physical for
every access of the kernel, so the pointers of the source are a frame and an
index here. `MEM_MAP` and the other variables of the kernel are kept apart from
the paged memory. A function that can reach one of the `while (1)` loops
returns `none` there.
-/

namespace OperatorSystem.Mm

def kernelMem : BitVec 32 := 0x100000
def memSize : BitVec 32 := 32 * 1024 * 1024
def pagesSize : Nat := 8192

def pgP : BitVec 32 := 1
def pgRww : BitVec 32 := 2
def pgUsu : BitVec 32 := 4

structure Memory where
  page : Nat → Nat → BitVec 32
  memMap : Nat → BitVec 8

/-! ### Entries and linear addresses -/

/-- The frame number of an address, or of the address part of an entry. -/
def frame (e : BitVec 32) : Nat := (e >>> 12).toNat

/-- `0xfffff000 & e` -/
def pageBase (e : BitVec 32) : BitVec 32 := 0xfffff000 &&& e

def Present (e : BitVec 32) : Prop := e &&& pgP ≠ 0

def Writable (e : BitVec 32) : Prop := e &&& pgRww ≠ 0

instance (e : BitVec 32) : Decidable (Present e) := inferInstanceAs (Decidable (_ ≠ _))

instance (e : BitVec 32) : Decidable (Writable e) := inferInstanceAs (Decidable (_ ≠ _))

/-- The address of a page frame. -/
def pageAddr (f : Nat) : BitVec 32 := BitVec.ofNat 32 f <<< 12

/-- The entry of a page that user code may write. -/
def freshEntry (f : Nat) : BitVec 32 := pageAddr f ||| pgP ||| pgRww ||| pgUsu

def dirIndex (linear : BitVec 32) : Nat := (linear >>> 22).toNat

def tableIndex (linear : BitVec 32) : Nat := ((linear >>> 12) &&& 0x3ff).toNat

def byteIndex (linear : BitVec 32) : Nat := (linear &&& 0xfff).toNat

namespace Memory

def setEntry (m : Memory) (f k : Nat) (v : BitVec 32) : Memory :=
  { m with page := Function.update m.page f (Function.update (m.page f) k v) }

def setCount (m : Memory) (f : Nat) (n : BitVec 8) : Memory :=
  { m with memMap := Function.update m.memMap f n }

/-! ### The functions -/

def initMemory (m : Memory) (memSize : BitVec 32) : Option Memory :=
  let memSize := if BitVec.slt 0x3C00000 memSize then 0x3C00000 else memSize
  let memSize := memSize &&& 0xFFFFF000
  if BitVec.slt memSize 0x400000 then none
  else
    let bufMemEnd := memSize.sdiv 4 - 1
    let mainMemEnd := memSize - 1
    some { m with
      memMap := fun i =>
        if i < pagesSize then
          if (i : Int) ≤ (bufMemEnd.sshiftRight 12).toInt then 100
          else if (i : Int) ≤ (mainMemEnd.sshiftRight 12).toInt then 0
          else m.memMap i
        else m.memMap i }

/-- Page `i` is counted as used and cleared. -/
def claimPage (m : Memory) (i : Nat) : Memory where
  page := Function.update m.page i fun _ => 0
  memMap := Function.update m.memMap i 1

/-- The address 0 stands for failure. -/
def getFreePage (m : Memory) : Memory × BitVec 32 :=
  match (List.range pagesSize).find? fun i => m.memMap i = 0 with
  | none => (m, 0)
  | some i => (m.claimPage i, pageAddr i)

def freePage (m : Memory) (addr : BitVec 32) : Option Memory :=
  if addr < kernelMem then some m
  else if addr ≥ memSize then none
  else
    let count := m.memMap (frame addr)
    -- `MEM_MAP[addr]--` stores the decrement whatever the old value was
    let m := m.setCount (frame addr) (count - 1)
    if count ≠ 0 then some m else some (m.setCount (frame addr) 0)

/-- One round of the inner loop of `copyPageTables`, on entry `k` of both tables. -/
def copyEntry (m : Memory) (fromTable toTable k : Nat) : Memory :=
  let tPage := m.page fromTable k
  if ¬ Present tPage then m
  else
    let tPage := tPage &&& ~~~ pgRww
    let m := m.setEntry toTable k tPage
    if tPage > kernelMem then
      let m := m.setEntry fromTable k tPage
      m.setCount (frame tPage) (m.memMap (frame tPage) + 1)
    else m

/-- The inner loop of `copyPageTables`: `cnt` entries from index `k` on. -/
def copyEntries (m : Memory) (fromTable toTable : Nat) : Nat → Nat → Memory
  | 0, _ => m
  | cnt + 1, k => (m.copyEntry fromTable toTable k).copyEntries fromTable toTable cnt (k + 1)

/-- The outer loop of `copyPageTables`, with the number of entries to copy per table. -/
def copyDirs (m : Memory) (cnt : Nat) : Nat → Nat → Nat → Memory × BitVec 32
  | 0, _, _ => (m, 0)
  | size + 1, toDir, fromDir =>
    if Present (m.page 0 toDir) then (m, -1)
    else if ¬ Present (m.page 0 fromDir) then m.copyDirs cnt size (toDir + 1) (fromDir + 1)
    else
      let fromTables := frame (m.page 0 fromDir)
      match m.getFreePage with
      | (m, toTables) =>
        if toTables = 0 then (m, -1)
        else
          let m := m.setEntry 0 toDir (toTables ||| pgP ||| pgRww ||| pgUsu)
          let m := m.copyEntries fromTables (frame toTables) cnt 0
          m.copyDirs cnt size (toDir + 1) (fromDir + 1)

def copyPageTables (m : Memory) (destAddr srcAddr size : BitVec 32) : Memory × BitVec 32 :=
  if destAddr &&& 0x3fffff ≠ 0 ∨ srcAddr &&& 0x3fffff ≠ 0 then (m, -1)
  else
    -- of process 0 only the first 640 KB are copied
    let cnt := if srcAddr = 0 then 0xA0 else 1024
    m.copyDirs cnt ((size + 0x3fffff) >>> 22).toNat (dirIndex destAddr) (dirIndex srcAddr)

/-- The inner loop of `freePageTables`: the entries of one table from index `k` on. -/
def freeEntries (m : Memory) (table : Nat) : Nat → Nat → Option Memory
  | 0, _ => some m
  | cnt + 1, k => do
    let m ← if Present (m.page table k) then m.freePage (pageBase (m.page table k)) else some m
    (m.setEntry table k 0).freeEntries table cnt (k + 1)

/-- The outer loop of `freePageTables`. -/
def freeDirs (m : Memory) : Nat → Nat → Option Memory
  | 0, _ => some m
  | size + 1, dir =>
    if ¬ Present (m.page 0 dir) then m.freeDirs size (dir + 1)
    else do
      let m ← m.freeEntries (frame (m.page 0 dir)) 1024 0
      let m ← m.freePage (pageBase (m.page 0 dir))
      (m.setEntry 0 dir 0).freeDirs size (dir + 1)

def freePageTables (m : Memory) (addr size : BitVec 32) : Option (Memory × BitVec 32) :=
  if addr &&& 0x3fffff ≠ 0 then some (m, -1)
  else if addr = 0 then some (m, -1)
  else do
    let m ← m.freeDirs ((size + 0x3fffff) >>> 22).toNat (dirIndex addr)
    return (m, 0)

/-- `unWriteProtectPage` on entry `k` of a table. -/
def unWriteProtectPage (m : Memory) (table k : Nat) : Option Memory :=
  let oldPage := pageBase (m.page table k)
  if oldPage ≥ kernelMem ∧ m.memMap (frame oldPage) = 1 then
    some (m.setEntry table k (m.page table k ||| pgRww))
  else
    match m.getFreePage with
    | (m, newPage) =>
      if newPage = 0 then none
      else
        let m := if oldPage ≥ kernelMem then
          m.setCount (frame oldPage) (m.memMap (frame oldPage) - 1) else m
        let m := m.setEntry table k (newPage ||| pgUsu ||| pgRww ||| pgP)
        -- `memcpy(new_page, old_page, 4096)`
        some { m with page := Function.update m.page (frame newPage) (m.page (frame oldPage)) }

def writeProtectPage (m : Memory) (addr : BitVec 32) : Option Memory :=
  m.unWriteProtectPage (frame (m.page 0 (dirIndex addr))) (tableIndex addr)

/-! ### Memory as a task sees it -/

/-- The page-table entry the processor uses for a linear address. -/
def walk (m : Memory) (linear : BitVec 32) : Option (BitVec 32) :=
  let dir := m.page 0 (dirIndex linear)
  let entry := m.page (frame dir) (tableIndex linear)
  if Present dir ∧ Present entry then some entry else none

/-- Byte `o` of a page. -/
def byte (words : Nat → BitVec 32) (o : Nat) : BitVec 8 := (words (o / 4) >>> (8 * (o % 4))).setWidth 8

/-- Byte `o` of a page is set. -/
def setByte (words : Nat → BitVec 32) (o : Nat) (b : BitVec 8) : Nat → BitVec 32 :=
  Function.update words (o / 4)
    (words (o / 4) &&& ~~~ ((0xff : BitVec 32) <<< (8 * (o % 4))) ||| b.setWidth 32 <<< (8 * (o % 4)))

/-- A load of one byte; `none` is a page fault. -/
def readByte (m : Memory) (linear : BitVec 32) : Option (BitVec 8) :=
  (m.walk linear).map fun entry => byte (m.page (frame entry)) (byteIndex linear)

/-- A store of one byte by user code, as far as the entry allows it. -/
def storeByte (m : Memory) (linear : BitVec 32) (b : BitVec 8) : Option Memory := do
  let entry ← m.walk linear
  if Writable entry ∧ Writable (m.page 0 (dirIndex linear)) then
    some { m with
      page := Function.update m.page (frame entry)
        (setByte (m.page (frame entry)) (byteIndex linear) b) }
  else none

end Memory

/-! ### Flags and frame numbers of entries -/

theorem present_iff (e : BitVec 32) : Present e ↔ e.getLsbD 0 = true := by
  rw [Present, show pgP = BitVec.twoPow 32 0 by decide, BitVec.and_twoPow]
  cases e.getLsbD 0
  · simp
  · simp only [if_true, iff_true]
    decide

theorem writable_iff (e : BitVec 32) : Writable e ↔ e.getLsbD 1 = true := by
  rw [Writable, show pgRww = BitVec.twoPow 32 1 by decide, BitVec.and_twoPow]
  cases e.getLsbD 1
  · simp
  · simp only [if_true, iff_true]
    decide

theorem frame_eq (e : BitVec 32) : frame e = e.toNat / 4096 := by
  simp [frame, Nat.shiftRight_eq_div_pow]

theorem frame_and {e c : BitVec 32} (high : c >>> 12 = 0xfffff) : frame (e &&& c) = frame e := by
  have below : e.toNat < 2 ^ 32 := e.isLt
  rw [frame, BitVec.ushiftRight_and_distrib, high, BitVec.toNat_and]
  change (e >>> 12).toNat &&& (2 ^ 20 - 1) = _
  rw [Nat.and_two_pow_sub_one_eq_mod, ← frame, frame_eq]
  omega

theorem frame_or {e c : BitVec 32} (low : c >>> 12 = 0) : frame (e ||| c) = frame e := by
  rw [frame, BitVec.ushiftRight_or_distrib, low]
  simp [frame]

@[simp] theorem frame_protect (e : BitVec 32) : frame (e &&& ~~~ pgRww) = frame e :=
  frame_and (by decide)

@[simp] theorem frame_pageBase (e : BitVec 32) : frame (pageBase e) = frame e := by
  rw [pageBase, BitVec.and_comm]
  exact frame_and (by decide)

@[simp] theorem frame_unprotect (e : BitVec 32) : frame (e ||| pgRww) = frame e :=
  frame_or (by decide)

@[simp] theorem present_protect (e : BitVec 32) : Present (e &&& ~~~ pgRww) ↔ Present e := by
  simp [present_iff, pgRww]

@[simp] theorem not_writable_protect (e : BitVec 32) : ¬ Writable (e &&& ~~~ pgRww) := by
  simp [writable_iff, pgRww]

@[simp] theorem present_unprotect (e : BitVec 32) : Present (e ||| pgRww) ↔ Present e := by
  simp [present_iff, pgRww]

@[simp] theorem writable_unprotect (e : BitVec 32) : Writable (e ||| pgRww) := by
  simp [writable_iff, pgRww]

/-- The comparison of `copyPageTables`, made on an entry with its flags. -/
theorem gt_kernelMem_iff {e : BitVec 32} (present : Present e) : e > kernelMem ↔ 256 ≤ frame e := by
  have odd : e.toNat % 2 = 1 := by
    rw [present_iff] at present
    simpa [BitVec.getLsbD] using present
  rw [frame_eq, gt_iff_lt, BitVec.lt_def]
  change 0x100000 < e.toNat ↔ _
  omega

/-- The comparison of `unWriteProtectPage`, made on the address alone. -/
theorem pageBase_ge_kernelMem_iff (e : BitVec 32) : pageBase e ≥ kernelMem ↔ 256 ≤ frame e := by
  rw [← frame_pageBase, frame_eq, ge_iff_le, BitVec.le_def]
  change 0x100000 ≤ _ ↔ _
  omega


theorem toNat_pageAddr {f : Nat} (small : f < 2 ^ 20) : (pageAddr f).toNat = f * 4096 := by
  simp only [pageAddr, BitVec.toNat_shiftLeft, BitVec.toNat_ofNat, Nat.shiftLeft_eq]
  omega

theorem frame_pageAddr {f : Nat} (small : f < 2 ^ 20) : frame (pageAddr f) = f := by
  rw [frame_eq, toNat_pageAddr small]
  omega

theorem pageAddr_ne_zero {f : Nat} (small : f < 2 ^ 20) (positive : 0 < f) : pageAddr f ≠ 0 := by
  intro zero
  have := congrArg BitVec.toNat zero
  rw [toNat_pageAddr small] at this
  simp at this
  omega

theorem frame_freshEntry {f : Nat} (small : f < 2 ^ 20) : frame (freshEntry f) = f := by
  rw [freshEntry, frame_or (by decide), frame_or (by decide), frame_or (by decide),
    frame_pageAddr small]

@[simp] theorem present_freshEntry (f : Nat) : Present (freshEntry f) := by
  simp [present_iff, freshEntry, pgP]

@[simp] theorem writable_freshEntry (f : Nat) : Writable (freshEntry f) := by
  simp [writable_iff, freshEntry, pgRww]

/-! ### Bytes of a page -/

namespace Memory

theorem getLsbD_byteMask (j : Nat) : (0xff : BitVec 32).getLsbD j = decide (j < 8) := by
  have mask : (0xff : BitVec 32) = (BitVec.allOnes 8).setWidth 32 := by decide
  rw [mask, BitVec.getLsbD_setWidth, BitVec.getLsbD_allOnes]
  by_cases low : j < 8
  · simp [low, show j < 32 by omega]
  · simp [low]

/-- The bits of a byte set in a word, read at another or the same place of the word. -/
theorem getLsbD_setByte (w : BitVec 32) (b : BitVec 8) {p i : Nat} (r : Nat) (inside : p + i < 32) :
    (w &&& ~~~ ((0xff : BitVec 32) <<< r) ||| b.setWidth 32 <<< r).getLsbD (p + i) =
      if r ≤ p + i ∧ p + i < r + 8 then b.getLsbD (p + i - r) else w.getLsbD (p + i) := by
  simp only [BitVec.getLsbD_or, BitVec.getLsbD_and, BitVec.getLsbD_not, BitVec.getLsbD_shiftLeft,
    BitVec.getLsbD_setWidth, getLsbD_byteMask, inside]
  by_cases low : p + i < r
  · simp [low, show ¬ r ≤ p + i by omega]
  · by_cases high : p + i < r + 8
    · simp [low, high, show r ≤ p + i by omega, show p + i - r < 8 by omega, show p + i - r < 32 by omega]
    · simp [low, high, show ¬ p + i - r < 8 by omega, BitVec.getLsbD_of_ge b (p + i - r) (by omega)]

theorem byte_setByte (words : Nat → BitVec 32) (o o' : Nat) (b : BitVec 8) :
    byte (setByte words o b) o' = if o' = o then b else byte words o' := by
  by_cases word : o' / 4 = o / 4
  · simp only [byte, setByte, word, Function.update_self]
    apply BitVec.eq_of_getLsbD_eq
    intro i small
    have inside : 8 * (o' % 4) + i < 32 := by omega
    rw [BitVec.getLsbD_setWidth, BitVec.getLsbD_ushiftRight, getLsbD_setByte _ _ _ inside]
    by_cases here : o' = o
    · subst here
      simp [small]
    · have apart : ¬ (8 * (o % 4) ≤ 8 * (o' % 4) + i ∧ 8 * (o' % 4) + i < 8 * (o % 4) + 8) := by
        omega
      simp [apart, here]
  · have apart : o' ≠ o := fun same => word (same ▸ rfl)
    simp [byte, setByte, word, apart]

end Memory

end OperatorSystem.Mm
