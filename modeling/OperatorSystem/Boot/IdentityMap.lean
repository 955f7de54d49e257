import OperatorSystem.Boot.InitKernel
import OperatorSystem.Mm.CopyOnWrite

/-!
# The first page tables (`setup.asm`)

The tables map the whole memory to itself. They begin at `0x1000` and grow
towards the kernel, and nothing but their own entries is stored into the
directory. The main result `startPaged_iff` says for which memory sizes, and
after what was in the place of the directory before, the kernel finds the map
that it relies on.
-/

namespace OperatorSystem.Boot

open Mm (Present Writable frame freshEntry pgP pgRww pgUsu dirIndex tableIndex byteIndex)

def pageDirBase : BitVec 32 := 0
def pageTblBase : BitVec 32 := 0x1000
def memorySizePhyAddr : BitVec 32 := 0x9A000

namespace Memory

/-- The body of `.loopDirFor` and `.loopTblFor`. -/
def loopFor : Nat → BitVec 32 → BitVec 32 → BitVec 32 → Memory → Option Memory
  | 0, _, _, _, _ => none
  | fuel + 1, ecx, edi, eax, m =>
    let m := m.storeDword edi eax
    let eax := eax + 4096
    let edi := edi + 4
    let ecx := ecx - 1
    if ecx = 0 then some m else loopFor fuel ecx edi eax m

def loopDirFor (ecx : BitVec 32) (m : Memory) : Option Memory :=
  m.loopFor 0x100000000 ecx pageDirBase (pageTblBase ||| pgP ||| pgUsu ||| pgRww)

def loopTblFor (ecx : BitVec 32) (m : Memory) : Option Memory :=
  m.loopFor 0x100000000 ecx pageTblBase (pgP ||| pgUsu ||| pgRww)

def setupPageing (m : Memory) : Option Memory := do
  let eax := m.dword memorySizePhyAddr
  let edx := eax % 0x400000
  let eax := eax / 0x400000
  let eax := if edx = 0 then eax else eax + 1
  let m ← m.loopDirFor eax
  m.loopTblFor (eax * 1024)

/-- `LABEL_PM_START`, up to the jump into the kernel. -/
def pmStart (m : Memory) : Option Memory := do
  let m ← m.setupPageing
  m.initKernel

variable {m m' : Memory} {size n : Nat} {a : BitVec 32}

theorem loopFor_spec (edi eax : BitVec 32) (n fuel : Nat) (enough : n < fuel)
    (fits : edi.toNat + 4 * (n + 1) ≤ 2 ^ 32) :
    ∃ m', m.loopFor fuel (BitVec.ofNat 32 (n + 1)) edi eax = some m' ∧
      (∀ k, k < n + 1 → m'.dword (edi + BitVec.ofNat 32 (4 * k)) = eax + BitVec.ofNat 32 (4096 * k)) ∧
        ∀ a, ¬ Within edi (4 * (n + 1)) a → m' a = m a := by
  -- the induction is on the entries that are left; each round stores one and moves on
  induction n generalizing fuel edi eax m with
  | zero =>
    obtain ⟨fuel, rfl⟩ := Nat.exists_eq_succ_of_ne_zero (Nat.ne_of_gt enough)
    refine ⟨m.storeDword edi eax, by rw [loopFor]; rfl, ?_, fun a outside => storeDword_other outside⟩
    intro k only
    obtain rfl : k = 0 := by omega
    simp only [Nat.mul_zero, BitVec.add_zero, dword_storeDword]
  | succ n ih =>
    obtain ⟨fuel, rfl⟩ := Nat.exists_eq_succ_of_ne_zero (Nat.ne_of_gt (Nat.lt_of_le_of_lt (Nat.zero_le _) enough))
    have down : BitVec.ofNat 32 (n + 1 + 1) - 1 = BitVec.ofNat 32 (n + 1) := by bv_omega
    have more : BitVec.ofNat 32 (n + 1) ≠ 0 := by bv_omega
    obtain ⟨m', done, entries, others⟩ := ih (m := m.storeDword edi eax) (edi + 4) (eax + 4096) fuel
      (by omega) (by bv_omega)
    refine ⟨m', ?_, ?_, ?_⟩
    · rw [loopFor]
      simp only [down]
      rw [if_neg more, done]
    · intro k below
      cases k with
      | zero =>
        have kept : m'.dword edi = (m.storeDword edi eax).dword edi := by
          refine dword_congr fun b near => others b fun later => ?_
          unfold Within at *
          bv_omega
        simp only [Nat.mul_zero, BitVec.add_zero, kept, dword_storeDword]
      | succ k =>
        have place : edi + BitVec.ofNat 32 (4 * (k + 1)) = edi + 4 + BitVec.ofNat 32 (4 * k) := by bv_omega
        have value : eax + BitVec.ofNat 32 (4096 * (k + 1)) = eax + 4096 + BitVec.ofNat 32 (4096 * k) := by bv_omega
        rw [place, value]
        exact entries k (Nat.lt_of_succ_lt_succ below)
    · intro a outside
      rw [others a fun later => outside (by unfold Within at *; bv_omega), storeDword_other fun first =>
        outside (by unfold Within at *; bv_omega)]

/-! ## The tables -/

/-- The bytes of a memory with `n` KB above the first MB. -/
def memoryBytes (n : Nat) : Nat := 0x100000 + 1024 * n

/-- How many tables map them. -/
def tableCount (n : Nat) : Nat := (memoryBytes n + 0x3FFFFF) / 0x400000

theorem freshEntry_eq {f : Nat} (small : f < 2 ^ 20) : freshEntry f = BitVec.ofNat 32 (4096 * f + 7) := by
  have flags : freshEntry f = Mm.pageAddr f ||| 7 := by
    rw [freshEntry, BitVec.or_assoc, BitVec.or_assoc]
    rfl
  rw [flags]
  apply BitVec.eq_of_toNat_eq
  rw [BitVec.toNat_or, Mm.toNat_pageAddr small, BitVec.toNat_ofNat, Nat.mod_eq_of_lt (by omega)]
  change f * 2 ^ 12 ||| 7 = _
  rw [← Nat.shiftLeft_eq, ← Nat.shiftLeft_add_eq_or_of_lt (by decide), Nat.shiftLeft_eq]
  omega

/-- What `setupPageing` leaves: the entries of the directory and of the tables, and all other bytes as before. -/
structure Mapped (n : Nat) (m m' : Memory) : Prop where
  dirs : ∀ d, d < tableCount n → m'.dword (BitVec.ofNat 32 (4 * d)) = freshEntry (d + 1)
  tables : ∀ k, k < 1024 * tableCount n → m'.dword (BitVec.ofNat 32 (0x1000 + 4 * k)) = freshEntry k
  others : ∀ a : BitVec 32, 4 * tableCount n ≤ a.toNat → a.toNat < 0x1000 ∨ 0x1000 + 4096 * tableCount n ≤ a.toNat →
    m' a = m a

theorem tableCount_le (small : n < 0x10000) : tableCount n ≤ 17 := by
  unfold tableCount memoryBytes
  omega

theorem setupPageing_spec (small : n < 0x10000) (memory : (m.dword memorySizePhyAddr).toNat = memoryBytes n) :
    ∃ m', m.setupPageing = some m' ∧ Mapped n m m' := by
  have le := tableCount_le small
  obtain ⟨t, count⟩ : ∃ t, tableCount n = t + 1 :=
    Nat.exists_eq_succ_of_ne_zero (by unfold tableCount memoryBytes; omega)
  -- the source rounds the number of tables up by the remainder of a division
  generalize read : m.dword memorySizePhyAddr = eax at memory
  have tables : (if eax % 0x400000 = 0 then eax / 0x400000 else eax / 0x400000 + 1) = BitVec.ofNat 32 (t + 1) := by
    have quotient : (eax / 0x400000).toNat = memoryBytes n / 0x400000 := by
      rw [BitVec.toNat_udiv, memory]
      rfl
    have remainder : (eax % 0x400000).toNat = memoryBytes n % 0x400000 := by
      rw [BitVec.toNat_umod, memory]
      rfl
    rw [← count]
    unfold tableCount memoryBytes at *
    split <;> bv_omega
  have entries : BitVec.ofNat 32 (t + 1) * 1024 = BitVec.ofNat 32 (1024 * t + 1023 + 1) := by bv_omega
  -- the directory first, then the tables; neither loop writes where the other does
  obtain ⟨m1, done1, dirs, others1⟩ := loopFor_spec (m := m) pageDirBase
    (pageTblBase ||| pgP ||| pgUsu ||| pgRww) t 0x100000000 (by omega) (by unfold pageDirBase; bv_omega)
  obtain ⟨m2, done2, table, others2⟩ := loopFor_spec (m := m1) pageTblBase (pgP ||| pgUsu ||| pgRww)
    (1024 * t + 1023) 0x100000000 (by omega) (by unfold pageTblBase; bv_omega)
  have run : m.setupPageing = some m2 := by
    rw [setupPageing, read]
    simp only [tables, loopDirFor, done1, Option.bind_eq_bind, Option.bind_some, entries, loopTblFor, done2]
  refine ⟨m2, run, ?_⟩
  constructor
  · intro d below
    have kept : m2.dword (BitVec.ofNat 32 (4 * d)) = m1.dword (BitVec.ofNat 32 (4 * d)) := by
      refine dword_congr fun b near => others2 b ?_
      unfold Within pageTblBase at *
      bv_omega
    have entry := dirs d (by omega)
    rw [show pageDirBase + BitVec.ofNat 32 (4 * d) = BitVec.ofNat 32 (4 * d) from BitVec.zero_add _] at entry
    rw [kept, entry, freshEntry_eq (by omega)]
    -- entry `d` is the first one plus `d` pages, as `add eax, 4096` makes it
    have first : pageTblBase ||| pgP ||| pgUsu ||| pgRww = 0x1007 := by decide
    rw [first]
    bv_omega
  · intro k below
    have entry := table k (by omega)
    have place : pageTblBase + BitVec.ofNat 32 (4 * k) = BitVec.ofNat 32 (0x1000 + 4 * k) := by
      unfold pageTblBase
      bv_omega
    have first : pgP ||| pgUsu ||| pgRww = 7 := by decide
    rw [place] at entry
    rw [entry, freshEntry_eq (by omega), first]
    bv_omega
  · intro a above outside
    rw [others2 a, others1 a]
    · unfold Within pageDirBase
      bv_omega
    · unfold Within pageTblBase
      bv_omega

/-- Entry `k` of the page with number `f`. -/
def page (m : Memory) (f k : Nat) : BitVec 32 := m.dword (BitVec.ofNat 32 (4096 * f + 4 * k))

/-- An entry that is present, writable and open to user code. -/
structure Allows (e : BitVec 32) : Prop where
  present : Present e
  writable : Writable e
  user : e &&& pgUsu ≠ 0

theorem allows_freshEntry {f : Nat} : Allows (freshEntry f) := by
  refine ⟨Mm.present_freshEntry f, Mm.writable_freshEntry f, fun zero => ?_⟩
  have bit := congrArg (fun e : BitVec 32 => e.getLsbD 2) zero
  simp [freshEntry, pgUsu] at bit

/-- The linear address is translated to itself. -/
structure Identity (m : Memory) (a : BitVec 32) : Prop where
  dir : Allows (m.page 0 (dirIndex a))
  entry : Allows (m.page (frame (m.page 0 (dirIndex a))) (tableIndex a))
  same : 4096 * frame (m.page (frame (m.page 0 (dirIndex a))) (tableIndex a)) + byteIndex a = a.toNat

/-- What the kernel relies on: the map of the memory up to 60 MB, and free entries for the tasks. -/
structure StartPaged (m : Memory) (bytes : Nat) : Prop where
  identity : ∀ a : BitVec 32, a.toNat < min bytes 0x3C00000 → m.Identity a
  free : ∀ d, 16 ≤ d → d < 1024 → ¬ Present (m.page 0 d)

/-- The tables do not reach the file of the kernel. -/
theorem Mapped.sameImage (mapped : Mapped n m m') (small : n < 0x10000) (fits : 0x50000 + size ≤ 2 ^ 32) :
    SameImage m size m' := by
  intro a inside
  have le := tableCount_le small
  refine mapped.others a ?_ (.inr ?_)
  all_goals
    unfold Within baseOfKernelFile at inside
    bv_omega

/-- After `initKernel` the first 64 KB are as `setupPageing` left them. -/
theorem pmStart_spec (elf : m.Elf size) (small : n < 0x10000)
    (memory : (m.dword memorySizePhyAddr).toNat = memoryBytes n)
    (place : ∀ h ∈ m.headers, ∀ a, h.Copies a → 0x10000 ≤ a.toNat) :
    ∃ m₁ m', m.pmStart = some m' ∧ Mapped n m m₁ ∧ ∀ a : BitVec 32, a.toNat < 0x10000 → m' a = m₁ a := by
  obtain ⟨m₁, done₁, mapped⟩ := setupPageing_spec small memory
  have same := mapped.sameImage small elf.fits
  obtain ⟨m', done, final⟩ := initKernel_spec (elf.congr same)
  refine ⟨m₁, m', by rw [pmStart, done₁]; exact done, mapped, fun a lower => ?_⟩
  rw [final, elf.headers_congr same]
  cases last : lastCopy m.headers a with
  | none => rfl
  | some h =>
    obtain ⟨member, copies⟩ := lastCopy_some last
    exact absurd (place h member a copies) (Nat.not_le.mpr lower)

theorem page_congr {f k : Nat} (fits : 4096 * f + 4 * k + 4 ≤ 2 ^ 32)
    (same : ∀ a : BitVec 32, 4096 * f + 4 * k ≤ a.toNat → a.toNat < 4096 * f + 4 * k + 4 → m' a = m a) :
    m'.page f k = m.page f k := by
  refine dword_congr fun a near => same a ?_ ?_
  all_goals
    unfold Within at near
    bv_omega

section Entries

variable {m₁ : Memory} (mapped : Mapped n m m₁) (lower : ∀ a : BitVec 32, a.toNat < 0x10000 → m' a = m₁ a)

include mapped lower

theorem page_dir (small : n < 0x10000) {d : Nat} (below : d < tableCount n) : m'.page 0 d = freshEntry (d + 1) := by
  have le := tableCount_le small
  rw [page_congr (m := m₁) (by omega) fun b _ near => lower b (by omega), page, Nat.mul_zero, Nat.zero_add]
  exact mapped.dirs d below

/-- The tables behind the fifteenth lie where the kernel goes. -/
theorem page_table {d k : Nat} (below : d < tableCount n) (early : d < 15) (index : k < 1024) :
    m'.page (d + 1) k = freshEntry (1024 * d + k) := by
  rw [page_congr (m := m₁) (by omega) fun b _ near => lower b (by omega), page,
    ← mapped.tables (1024 * d + k) (by omega)]
  congr 2
  omega

theorem page_dir_free {d : Nat} (above : tableCount n ≤ d) (index : d < 1024) : m'.page 0 d = m.page 0 d := by
  rw [page_congr (m := m₁) (by omega) fun b _ near => lower b (by omega)]
  exact page_congr (by omega) fun b start near => mapped.others b (by omega) (.inl (by omega))

theorem identity_of_mapped (small : n < 0x10000) (inside : a.toNat < min (memoryBytes n) 0x3C00000) :
    m'.Identity a := by
  have le := tableCount_le small
  have table : dirIndex a < tableCount n ∧ dirIndex a < 15 := by
    rw [Mm.dirIndex_eq]
    unfold tableCount
    omega
  have index : tableIndex a < 1024 := by
    rw [Mm.tableIndex_eq]
    omega
  have dir := page_dir mapped lower small table.1
  have entry := page_table mapped lower table.1 table.2 index
  -- the entry of the directory leads to the table that the loop has filled for it
  have target : frame (m'.page 0 (dirIndex a)) = dirIndex a + 1 := by
    rw [dir, Mm.frame_freshEntry (by omega)]
  constructor
  · rw [dir]
    exact allows_freshEntry
  · rw [target, entry]
    exact allows_freshEntry
  · rw [target, entry, Mm.frame_freshEntry (by omega), Mm.dirIndex_eq, Mm.tableIndex_eq, Mm.byteIndex_eq]
    omega

end Entries

/-- The kernel finds its map exactly if the memory has at most 64 MB and what was in the place of the upper
directory entries before does not look like one. -/
theorem startPaged_iff (elf : m.Elf size) (n : BitVec 16)
    (memory : (m.dword memorySizePhyAddr).toNat = memoryBytes n.toNat)
    (place : ∀ h ∈ m.headers, ∀ a, h.Copies a → 0x10000 ≤ a.toNat) :
    ∃ m', m.pmStart = some m' ∧ (StartPaged m' (memoryBytes n.toNat) ↔
      n.toNat ≤ 64512 ∧ ∀ d, 16 ≤ d → d < 1024 → ¬ Present (m.page 0 d)) := by
  obtain ⟨m₁, m', done, mapped, lower⟩ := pmStart_spec elf n.isLt memory place
  have count : tableCount n.toNat ≤ 16 ↔ n.toNat ≤ 64512 := by
    unfold tableCount memoryBytes
    omega
  refine ⟨m', done, ?_⟩
  constructor
  · intro paged
    have few : n.toNat ≤ 64512 := by
      by_contra more
      -- with a seventeenth table its directory entry would not be free
      have seventeen : 16 < tableCount n.toNat := Nat.lt_of_not_le fun le => more (count.mp le)
      refine paged.free 16 (Nat.le_refl _) (by decide) ?_
      rw [page_dir mapped lower n.isLt seventeen]
      exact Mm.present_freshEntry 17
    refine ⟨few, fun d above within => ?_⟩
    rw [← page_dir_free mapped lower (Nat.le_trans (count.mpr few) above) within]
    exact paged.free d above within
  · rintro ⟨few, free⟩
    refine ⟨fun a inside => identity_of_mapped mapped lower n.isLt inside, fun d above within => ?_⟩
    -- the entries behind the tables are as they were found
    rw [page_dir_free mapped lower (Nat.le_trans (count.mpr few) above) within]
    exact free d above within

/-- With 32 MB the kernel starts in the state from which its memory manager is verified. -/
theorem booted_of_pmStart (elf : m.Elf size) (memory : (m.dword memorySizePhyAddr).toNat = memoryBytes (31 * 1024))
    (place : ∀ h ∈ m.headers, ∀ a, h.Copies a → 0x10000 ≤ a.toNat)
    (free : ∀ d, 8 ≤ d → d < 1024 → ¬ Present (m.page 0 d)) :
    ∃ m', m.pmStart = some m' ∧ ∀ mem : Mm.Memory, mem.page = m'.page → mem.Booted := by
  have small : 31 * 1024 < 0x10000 := by decide
  have eight : tableCount (31 * 1024) = 8 := by decide
  obtain ⟨m₁, m', done, mapped, lower⟩ := pmStart_spec elf small memory place
  refine ⟨m', done, fun mem same => ?_⟩
  constructor
  · intro d below
    rw [same, page_dir mapped lower small (by omega)]
  · intro d below k index
    rw [same, page_table mapped lower (by omega) (by omega) index]
  · intro d above index
    rw [same, page_dir_free mapped lower (by omega) index]
    exact free d above index

/-! The file of before, with another memory size at `0x9A000`. -/

def sizedImage (size : BitVec 32) : Memory := bssImage.storeDword memorySizePhyAddr size

theorem sizedImage_same (size : BitVec 32) : SameImage bssImage 85 (sizedImage size) := by
  intro a inside
  refine storeDword_other fun near => ?_
  unfold Within baseOfKernelFile memorySizePhyAddr at *
  bv_omega

theorem sizedImage_elf (size : BitVec 32) : (sizedImage size).Elf 85 := bssImage_elf.congr (sizedImage_same size)

theorem sizedImage_place (size : BitVec 32) : ∀ h ∈ (sizedImage size).headers, ∀ a, h.Copies a → 0x10000 ≤ a.toNat := by
  intro h member a copies
  rw [bssImage_elf.headers_congr (sizedImage_same size), bssImage_headers, List.mem_singleton] at member
  subst member
  have inside := copies.2
  unfold ProgramHeader.InFile Within at inside
  bv_omega

/-- A memory of 1 MB. -/
theorem startPaged_iff_small : ∃ m', (sizedImage 0x100000).pmStart = some m' ∧
    (StartPaged m' (memoryBytes (0 : BitVec 16).toNat) ↔
      (0 : BitVec 16).toNat ≤ 64512 ∧ ∀ d, 16 ≤ d → d < 1024 → ¬ Present ((sizedImage 0x100000).page 0 d)) :=
  startPaged_iff (sizedImage_elf _) 0 (by rw [sizedImage, dword_storeDword]; rfl) (sizedImage_place _)

/-- A memory of 64 MB and 1 KB. -/
theorem pmStart_seventeen : ∃ m', (sizedImage 0x4000400).pmStart = some m' ∧ ¬ StartPaged m' (memoryBytes 64513) := by
  obtain ⟨m₁, m', done, mapped, lower⟩ := pmStart_spec (n := 64513) (sizedImage_elf 0x4000400) (by decide)
    (by rw [sizedImage, dword_storeDword]; rfl) (sizedImage_place _)
  refine ⟨m', done, fun paged => paged.free 16 (Nat.le_refl _) (by decide) ?_⟩
  rw [page_dir mapped lower (by decide) (by decide)]
  exact Mm.present_freshEntry 17

end Memory

end OperatorSystem.Boot
