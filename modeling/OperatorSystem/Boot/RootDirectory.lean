import OperatorSystem.Boot.Setup

/-!
# Searching the root directory (`setup.asm`)

Three loops look for the file of the kernel: over the sectors of the directory,
over the sixteen entries of a sector, and over the eleven characters of a name.
The two inner ones share `cx`, and `bx` comes back to the start of an entry by a
mask. The main result is `traverseRootSector_spec`.
-/

namespace OperatorSystem.Boot

def bufferRootAddress : Nat := 0x9B00
def bufferRootOffset : Nat := 0
def rootDercotryStart : Nat := 19
def theSectorFileCount : Nat := 16
def charlengthOfFileName : Nat := 11

/-- The labels that the search uses besides. -/
structure SearchLabels extends Labels where
  rootDirctoryCount : Nat
  fileNameKernel : Nat

/-- The order of the labels: the number of sectors stands in front of `EvenOrOdd`, the name behind it. -/
structure SearchLabels.Placed (L : SearchLabels) : Prop where
  labels : L.toLabels.Placed
  header : L.secPerTrk + 2 ≤ L.rootDirctoryCount
  count : L.rootDirctoryCount + 2 ≤ L.evenOrOdd
  name : L.evenOrOdd < L.fileNameKernel
  nameEnd : L.fileNameKernel + charlengthOfFileName ≤ L.stringLoadingKernel

/-- `KERNEL  BIN` -/
def kernelName (j : Nat) : BitVec 8 := [0x4B, 0x45, 0x52, 0x4E, 0x45, 0x4C, 0x20, 0x20, 0x42, 0x49, 0x4E].getD j 0

namespace Cpu

/-- `mov dh,[es:bx]`, `mov dl,[ds:si]` -/
def loadChars (s : Cpu) : Cpu :=
  let s := s.setDx (withHigh s.dx (s.mem (phys s.es s.bx)).toNat)
  s.setDx (withLow s.dx (s.byte s.si))

/-- `inc bx`, `inc si`, and the count of `loop` -/
def nextChar (s : Cpu) : Cpu :=
  let s := s.setBx ((s.bx + 1) % 0x10000)
  let s := s.setSi ((s.si + 1) % 0x10000)
  s.setCx ((s.cx + 0xFFFF) % 0x10000)

/-- `TRAVERSE_FILE_CHAR`; the result says whether the loop ended with `cx` at 0. -/
def traverseFileChar : Nat → Cpu → Option (Bool × Cpu)
  | 0, _ => none
  | fuel + 1, s =>
    let s := s.loadChars
    if high s.dx ≠ low s.dx then some (false, s)
    else
      let s := s.nextChar
      if s.cx = 0 then some (true, s) else traverseFileChar fuel s

/-- A round of `TRAVERSE_FILE_ENTRY` up to the mask `0FFE0H`, which both ends of the inner loop apply to `bx`. -/
def compareEntry (L : SearchLabels) (s : Cpu) : Option (Bool × Cpu) := do
  let s := s.push s.cx
  let s := s.setCx charlengthOfFileName
  let s := s.setSi L.fileNameKernel
  let (same, s) ← s.traverseFileChar 0x10000
  return (same, s.setBx (s.bx / 32 * 32))

/-- `add bx,32`, `pop cx`, and the count of `loop` -/
def nextEntry (s : Cpu) : Cpu :=
  let s := s.setBx ((s.bx + 32) % 0x10000)
  let s := s.drop.setCx s.top
  s.setCx ((s.cx + 0xFFFF) % 0x10000)

/-- `TRAVERSE_FILE_ENTRY` -/
def traverseFileEntry (L : SearchLabels) : Nat → Cpu → Option Cpu
  | 0, _ => none
  | fuel + 1, s => do
    let (same, s) ← s.compareEntry L
    if same then
      let s := s.drop.setCx s.top
      some (s.setCx 1)
    else
      let s := s.nextEntry
      if s.cx = 0 then some (s.setCx 0) else traverseFileEntry L fuel s

def findTheKernel (L : SearchLabels) (s : Cpu) : Option Cpu :=
  (s.setCx theSectorFileCount).traverseFileEntry L 0x10000

/-- `inc ax`, `dec word [ds:RootDirctoryCount]` -/
def nextSector (L : SearchLabels) (s : Cpu) : Cpu :=
  let s := s.setAx ((s.ax + 1) % 0x10000)
  s.storeWord (phys setupSeg L.rootDirctoryCount) ((s.word (phys setupSeg L.rootDirctoryCount) + 0xFFFF) % 0x10000)

/-- `TRAVERSE_THE_ROOT_SECTOR`; the result says whether the jump to `FIND_THE_SETUP_FILE` is taken. -/
def traverseRootSector (d : Disk) (L : SearchLabels) : Nat → Cpu → Option (Bool × Cpu)
  | 0, _ => none
  | fuel + 1, s => do
    let s := s.setBx bufferRootOffset
    let s := s.setCx 1
    let s ← s.readSector d L.toLabels
    let s ← s.findTheKernel L
    if s.cx = 1 then some (true, s)
    else
      let s := s.nextSector L
      if s.word (phys setupSeg L.rootDirctoryCount) = 0 then some (false, s) else traverseRootSector d L fuel s

/-- The first two instructions at `FIND_THE_SETUP_FILE`. -/
def firstCluster (s : Cpu) : Cpu :=
  let s := s.setBx ((s.bx + 0x1A) % 0x10000)
  s.setAx (s.word (phys s.es s.bx))

end Cpu

/-! ## The first of several -/

/-- The first number from `i` on, and below `n`, with a property. -/
structure First (p : Nat → Prop) (i n e : Nat) : Prop where
  start : i ≤ e
  below : e < n
  holds : p e
  earlier : ∀ j, i ≤ j → j < e → ¬ p j

/-- No number from `i` on, and below `n`, has the property. -/
def Nowhere (p : Nat → Prop) (i n : Nat) : Prop := ∀ j, i ≤ j → j < n → ¬ p j

variable {p q : Nat → Prop} {i n e : Nat}

theorem First.here (within : i < n) (holds : p i) : First p i n i :=
  ⟨Nat.le_refl _, within, holds, fun _ start before => absurd before (Nat.not_lt.mpr start)⟩

theorem First.skip (none : ¬ p i) (later : First p (i + 1) n e) : First p i n e := by
  refine ⟨Nat.le_of_succ_le later.start, later.below, later.holds, fun j start before => ?_⟩
  rcases Nat.eq_or_lt_of_le start with rfl | next
  · exact none
  · exact later.earlier j next before

theorem First.congr (same : ∀ j, j < n → (p j ↔ q j)) (first : First p i n e) : First q i n e :=
  ⟨first.start, first.below, (same e first.below).mp first.holds, fun j start before =>
    mt (same j (Nat.lt_trans before first.below)).mpr (first.earlier j start before)⟩

theorem First.widen {m : Nat} (le : n ≤ m) (first : First p i n e) : First p i m e :=
  ⟨first.start, Nat.lt_of_lt_of_le first.below le, first.holds, first.earlier⟩

theorem Nowhere.congr (same : ∀ j, j < n → (p j ↔ q j)) (none : Nowhere p i n) : Nowhere q i n :=
  fun j start below => mt (same j below).mpr (none j start below)

theorem First.skips {m : Nat} (le : i ≤ m) (none : Nowhere p i m) (later : First p m n e) : First p i n e := by
  refine ⟨Nat.le_trans le later.start, later.below, later.holds, fun j start before => ?_⟩
  rcases Nat.lt_or_ge j m with early | late
  · exact none j start early
  · exact later.earlier j late before

theorem Nowhere.skips {m : Nat} (none : Nowhere p i m) (later : Nowhere p m n) : Nowhere p i n := by
  intro j start below
  rcases Nat.lt_or_ge j m with early | late
  · exact none j start early
  · exact later j late below

theorem Nowhere.skip (none : ¬ p i) (later : Nowhere p (i + 1) n) : Nowhere p i n := by
  intro j start before
  rcases Nat.eq_or_lt_of_le start with rfl | next
  · exact none
  · exact later j next before

/-! ## The characters of a name -/

namespace Cpu

variable {d : Disk} {L : SearchLabels} {s : Cpu}

/-- What the comparison leaves alone. -/
structure Steady (s s' : Cpu) : Prop where
  ax : s'.ax = s.ax
  sp : s'.sp = s.sp
  es : s'.es = s.es
  mem : s'.mem = s.mem
  stores : s'.stores = s.stores

theorem Steady.trans {s' s'' : Cpu} (first : Steady s s') (second : Steady s' s'') : Steady s s'' :=
  ⟨second.ax.trans first.ax, second.sp.trans first.sp, second.es.trans first.es, second.mem.trans first.mem,
    second.stores.trans first.stores⟩

theorem loadChars_spec (s : Cpu) : (high s.loadChars.dx = low s.loadChars.dx ↔
    s.mem (phys s.es s.bx) = s.mem (phys setupSeg s.si)) ∧ s.loadChars.bx = s.bx ∧ s.loadChars.si = s.si ∧
      s.loadChars.cx = s.cx ∧ Steady s s.loadChars := by
  refine ⟨?_, rfl, rfl, rfl, ⟨rfl, rfl, rfl, rfl, rfl⟩⟩
  simp only [loadChars, setDx_dx]
  rw [high_withLow (BitVec.isLt _), high_withHigh (BitVec.isLt _), low_withLow (BitVec.isLt _)]
  exact BitVec.toNat_inj

theorem nextChar_spec (bx : s.bx + 1 < 0x10000) (si : s.si + 1 < 0x10000) (count : 0 < s.cx) (short : s.cx < 0x10000) :
    s.nextChar.bx = s.bx + 1 ∧ s.nextChar.si = s.si + 1 ∧ s.nextChar.cx = s.cx - 1 ∧ Steady s s.nextChar := by
  refine ⟨Nat.mod_eq_of_lt bx, Nat.mod_eq_of_lt si, ?_, ⟨rfl, rfl, rfl, rfl, rfl⟩⟩
  simp only [nextChar, setCx_cx, setSi_cx, setBx_cx]
  omega

/-- One round of the loop over the characters: it stops at a difference, and after the last character. -/
theorem traverseFileChar_step (bx : s.bx + 1 < 0x10000) (si : s.si + 1 < 0x10000) (count : 0 < s.cx)
    (short : s.cx < 0x10000) :
    (s.mem (phys s.es s.bx) ≠ s.mem (phys setupSeg s.si) ∧ ∃ s', s'.bx = s.bx ∧ Steady s s' ∧
      ∀ fuel, s.traverseFileChar (fuel + 1) = some (false, s')) ∨
    (s.mem (phys s.es s.bx) = s.mem (phys setupSeg s.si) ∧ ∃ s', s'.bx = s.bx + 1 ∧ s'.si = s.si + 1 ∧
      s'.cx = s.cx - 1 ∧ Steady s s' ∧
      ∀ fuel, s.traverseFileChar (fuel + 1) = if s'.cx = 0 then some (true, s') else s'.traverseFileChar fuel) := by
  obtain ⟨equal, bx1, si1, cx1, steady1⟩ := loadChars_spec s
  by_cases same : high s.loadChars.dx = low s.loadChars.dx
  · right
    obtain ⟨bx2, si2, cx2, steady2⟩ := nextChar_spec (s := s.loadChars) (by omega) (by omega) (by omega) (by omega)
    refine ⟨equal.mp same, s.loadChars.nextChar, by rw [bx2, bx1], by rw [si2, si1], by rw [cx2, cx1],
      steady1.trans steady2, fun fuel => ?_⟩
    rw [traverseFileChar]
    exact if_neg (not_not_intro same)
  · left
    refine ⟨mt equal.mpr same, s.loadChars, bx1, steady1, fun fuel => ?_⟩
    rw [traverseFileChar]
    exact if_pos same

/-- The loop over the characters compares all that `cx` counts, and `bx` stays among them. -/
theorem traverseFileChar_spec (k fuel : Nat) (enough : k < fuel) (count : s.cx = k + 1) (short : k < 0xFFFF)
    (room : s.bx + k + 1 < 0x10000) (text : s.si + k + 1 < 0x10000) :
    ∃ same s', s.traverseFileChar fuel = some (same, s') ∧
      (same = true ↔ ∀ j, j ≤ k → s.mem (phys s.es (s.bx + j)) = s.mem (phys setupSeg (s.si + j))) ∧
      s.bx ≤ s'.bx ∧ s'.bx ≤ s.bx + k + same.toNat ∧ Steady s s' := by
  -- the induction is on the characters that are left after this one
  induction k generalizing s fuel with
  | zero =>
    obtain ⟨fuel, rfl⟩ := Nat.exists_eq_succ_of_ne_zero (Nat.ne_of_gt enough)
    rcases traverseFileChar_step (s := s) (by omega) (by omega) (by omega) (by omega) with
      ⟨other, s', bx, steady, stops⟩ | ⟨equal, s', bx, si, cx, steady, goes⟩
    · refine ⟨false, s', stops fuel, iff_of_false Bool.false_ne_true fun all => other (all 0 (Nat.le_refl 0)), ?_, ?_, steady⟩
      · exact Nat.le_of_eq bx.symm
      · exact Nat.le_trans (Nat.le_of_eq bx) (Nat.le_add_right _ _)
    · refine ⟨true, s', ?_, iff_of_true rfl fun j le => ?_, by omega, Nat.le_of_eq bx, steady⟩
      · rw [goes, if_pos (by omega)]
      · obtain rfl := Nat.le_zero.mp le
        exact equal
  | succ k ih =>
    obtain ⟨fuel, rfl⟩ := Nat.exists_eq_succ_of_ne_zero (Nat.ne_of_gt (Nat.lt_of_le_of_lt (Nat.zero_le _) enough))
    rcases traverseFileChar_step (s := s) (by omega) (by omega) (by omega) (by omega) with
      ⟨other, s1, bx1, steady, stops⟩ | ⟨equal, s1, bx1, si1, cx1, steady, goes⟩
    · refine ⟨false, s1, stops fuel, iff_of_false Bool.false_ne_true fun all => other (all 0 (Nat.zero_le _)), ?_, ?_, steady⟩
      · exact Nat.le_of_eq bx1.symm
      · exact Nat.le_trans (Nat.le_of_eq bx1) (Nat.le_trans (Nat.le_add_right _ _) (Nat.le_add_right _ _))
    · obtain ⟨same, s', done, verdict, above, below, steady'⟩ := ih (s := s1) fuel (by omega) (by omega) (by omega)
        (by omega) (by omega)
      refine ⟨same, s', by rw [goes, if_neg (by omega), done], ?_, by omega, by omega, steady.trans steady'⟩
      -- the first character agrees, so the verdict on the others is the verdict on all
      rw [verdict, steady.mem, steady.es, bx1, si1]
      constructor
      · intro later j le
        cases j with
        | zero => exact equal
        | succ j =>
          rw [← Nat.add_assoc, ← Nat.add_assoc, Nat.add_right_comm s.bx, Nat.add_right_comm s.si]
          exact later j (Nat.le_of_succ_le_succ le)
      · intro all j le
        rw [Nat.add_assoc, Nat.add_assoc, Nat.add_comm 1]
        exact all (j + 1) (Nat.succ_le_succ le)

/-! ## The entries of a sector -/

/-- The entry of the sector at `es:0` with this number begins with the name. -/
def EntryMatches (s : Cpu) (e : Nat) : Prop := ∀ j, j < 11 → s.mem (phys s.es (32 * e + j)) = kernelName j

/-- Where the search stands: the name in its place, the stack over the labels, the sector in its buffer. -/
structure Searching (L : SearchLabels) (s : Cpu) : Prop where
  name : ∀ j, j < 11 → s.mem (phys setupSeg (L.fileNameKernel + j)) = kernelName j
  stack : L.topOfStack ≤ s.sp + 100
  below : s.sp ≤ 0xA000
  es : s.es = bufferRootAddress

theorem Searching.kept {s' : Cpu} (placed : L.Placed) (searching : Searching L s) (writes : Writes (s.Below 2) s s') :
    ∀ j, j < 11 → s'.mem (phys setupSeg (L.fileNameKernel + j)) = kernelName j := by
  obtain ⟨⟨_, _, _, text, image⟩, _, _, _, nameEnd⟩ := placed
  obtain ⟨name, stack', below', es'⟩ := searching
  intro j within
  rw [writes.kept, name j within]
  unfold Below phys charlengthOfFileName at *
  omega

theorem Searching.writes {s' : Cpu} (placed : L.Placed) (searching : Searching L s) (writes : Writes (s.Below 2) s s')
    (sp : s'.sp = s.sp) (es : s'.es = s.es) : Searching L s' :=
  ⟨searching.kept placed writes, by rw [sp]; exact searching.stack, by rw [sp]; exact searching.below,
    es.trans searching.es⟩

/-- What lies on the stack is no part of the sector. -/
theorem entryMatches_writes {s' : Cpu} (searching : Searching L s) (writes : Writes (s.Below 2) s s')
    (es : s'.es = s.es) {e : Nat} (within : e < 16) : EntryMatches s' e ↔ EntryMatches s e := by
  have same : ∀ j, j < 11 → s'.mem (phys s'.es (32 * e + j)) = s.mem (phys s.es (32 * e + j)) := by
    intro j short
    rw [es, writes.kept]
    have here := searching.es
    have below := searching.below
    unfold Below phys setupSeg bufferRootAddress at *
    omega
  constructor
  · exact fun all j short => (same j short).symm.trans (all j short)
  · exact fun all j short => (same j short).trans (all j short)

/-- What the comparison of an entry leaves: the count on the stack and `bx` at the start of the entry. -/
structure Compared (s : Cpu) (e : Nat) (same : Bool) (s' : Cpu) : Prop where
  verdict : same = true ↔ EntryMatches s e
  bx : s'.bx = 32 * e
  top : s'.top = s.cx
  sp : s'.sp = s.sp - 2
  ax : s'.ax = s.ax
  es : s'.es = s.es
  writes : Writes (s.Below 2) s s'

theorem Searching.room (placed : L.Placed) (searching : Searching L s) : 2 ≤ s.sp := by
  obtain ⟨_, _, _, text, _⟩ := placed.labels
  have stack := searching.stack
  omega

theorem compareEntry_spec (placed : L.Placed) (searching : Searching L s) {e : Nat} (within : e < 16)
    (start : s.bx = 32 * e) (count : s.cx < 0x10000) :
    ∃ same s', s.compareEntry L = some (same, s') ∧ Compared s e same s' := by
  obtain ⟨⟨_, _, _, text, image⟩, _, _, _, nameEnd⟩ := id placed
  have stack := searching.stack
  have below := searching.below
  have pushed := push_spec (s := s) (w := s.cx) (by omega) (by omega) count
  have written : Writes (s.Below 2) s (s.push s.cx) := pushed.writes
  have stayed := entryMatches_writes searching written pushed.es within
  have named := searching.kept placed written
  rw [compareEntry]
  -- the loop over the characters uses cx, so the count of entries is pushed
  generalize s.push s.cx = s1 at pushed written stayed named ⊢
  generalize began : (s1.setCx charlengthOfFileName).setSi L.fileNameKernel = s2
  have bx2 : s2.bx = 32 * e := by rw [← began, setSi_bx, setCx_bx, pushed.bx, start]
  have mem2 : s2.mem = s1.mem := by rw [← began, setSi_mem, setCx_mem]
  have es2 : s2.es = s1.es := by rw [← began, setSi_es, setCx_es]
  obtain ⟨same, s3, done, verdict, above, under, steady⟩ := traverseFileChar_spec (s := s2) 10 0x10000 (by decide)
    (by rw [← began]; rfl) (by decide) (by rw [bx2]; omega)
    (by rw [← began, setSi_si]; unfold charlengthOfFileName at nameEnd; omega)
  -- `and bx, 0xffe0` goes back to the start of the entry
  refine ⟨same, s3.setBx (s3.bx / 32 * 32), ?_, ?_⟩
  · simp only [done, Option.bind_eq_bind, Option.bind_some]
    rfl
  have si2 : s2.si = L.fileNameKernel := by rw [← began, setSi_si]
  have mem3 : s3.mem = s1.mem := steady.mem.trans mem2
  have sp3 : s3.sp = s.sp - 2 := by rw [steady.sp, ← began, setSi_sp, setCx_sp, pushed.sp]
  constructor
  · rw [verdict, ← stayed, mem2, es2, bx2, si2]
    constructor
    · exact fun all j short => (all j (by omega)).trans (named j short)
    · exact fun all j short => (all j (by omega)).trans (named j (by omega)).symm
  · -- at most the last character is behind bx, so bx is still in the entry
    have stay : same.toNat ≤ 1 := Bool.toNat_le same
    rw [setBx_bx]
    omega
  · rw [Cpu.top, setBx_sp, sp3, ← pushed.sp, word, setBx_mem, mem3, ← word, pushed.top]
  · rw [setBx_sp, sp3]
  · rw [setBx_ax, steady.ax, ← began, setSi_ax, setCx_ax, pushed.ax]
  · rw [setBx_es, steady.es, es2, pushed.es]
  · refine written.trans (.none (by rw [setBx_mem, mem3]) ?_)
    rw [setBx_stores, steady.stores, ← began, setSi_stores, setCx_stores]

/-- What the search through a sector leaves. -/
structure Searched (s : Cpu) (e : Nat) (s' : Cpu) : Prop where
  verdict : (s'.cx = 1 ∧ ∃ e', First (EntryMatches s) e 16 e' ∧ s'.bx = 32 * e') ∨
    s'.cx = 0 ∧ Nowhere (EntryMatches s) e 16
  ax : s'.ax = s.ax
  sp : s'.sp = s.sp
  es : s'.es = s.es
  writes : Writes (s.Below 2) s s'

theorem Compared.found {s' : Cpu} {e : Nat} {same : Bool} (compared : Compared s e same s') (room : 2 ≤ s.sp)
    (below : s.sp ≤ 0xA000) (first : First (EntryMatches s) e 16 e) :
    Searched s e ((s'.drop.setCx s'.top).setCx 1) := by
  refine ⟨.inl ⟨rfl, e, first, compared.bx⟩, compared.ax, ?_, compared.es, compared.writes.trans (.none rfl rfl)⟩
  rw [setCx_sp, setCx_sp, drop_sp, compared.sp]
  omega

/-- An entry with another name is left behind. -/
theorem nextEntry_spec {s' : Cpu} {e : Nat} {same : Bool} (compared : Compared s e same s') (within : e < 16)
    (room : 2 ≤ s.sp) (below : s.sp ≤ 0xA000) (count : 0 < s.cx) (short : s.cx < 0x10000) :
    s'.nextEntry.bx = 32 * (e + 1) ∧ s'.nextEntry.cx = s.cx - 1 ∧ s'.nextEntry.ax = s.ax ∧ s'.nextEntry.sp = s.sp ∧
      s'.nextEntry.es = s.es ∧ Writes (s.Below 2) s s'.nextEntry := by
  have top : ((s'.setBx ((s'.bx + 32) % 0x10000)).drop.setCx (s'.setBx ((s'.bx + 32) % 0x10000)).top).cx = s.cx := by
    rw [setCx_cx, Cpu.top, setBx_sp, word, setBx_mem, ← word, ← Cpu.top, compared.top]
  refine ⟨?_, ?_, ?_, ?_, ?_, ?_⟩
  · simp only [nextEntry, setCx_bx, drop_bx, setBx_bx, compared.bx]
    omega
  · rw [nextEntry, setCx_cx, top]
    omega
  · exact compared.ax
  · simp only [nextEntry, setCx_sp, drop_sp, setBx_sp, compared.sp]
    omega
  · exact compared.es
  · refine compared.writes.trans (.none ?_ ?_) <;> simp [nextEntry]

/-- One round of the loop over the entries. -/
theorem traverseFileEntry_step (placed : L.Placed) (searching : Searching L s) {e : Nat} (within : e < 16)
    (start : s.bx = 32 * e) (count : 0 < s.cx) (short : s.cx < 0x10000) :
    (EntryMatches s e ∧ ∃ s', Searched s e s' ∧ ∀ fuel, s.traverseFileEntry L (fuel + 1) = some s') ∨
    (¬ EntryMatches s e ∧ ∃ s', s'.bx = 32 * (e + 1) ∧ s'.cx = s.cx - 1 ∧ s'.ax = s.ax ∧ s'.sp = s.sp ∧
      s'.es = s.es ∧ Writes (s.Below 2) s s' ∧ ∀ fuel, s.traverseFileEntry L (fuel + 1) =
        if s'.cx = 0 then some (s'.setCx 0) else s'.traverseFileEntry L fuel) := by
  have room : 2 ≤ s.sp := searching.room placed
  obtain ⟨same, s1, done, compared⟩ := compareEntry_spec placed searching within start short
  -- a match leaves the loop, otherwise it goes on at the next entry
  cases same with
  | true =>
    have holds := compared.verdict.mp rfl
    have stops : ∀ fuel, s.traverseFileEntry L (fuel + 1) = some ((s1.drop.setCx s1.top).setCx 1) := by
      intro fuel
      rw [traverseFileEntry, done, Option.bind_eq_bind, Option.bind_some]
      exact if_pos rfl
    exact .inl ⟨holds, _, compared.found room searching.below (.here within holds), stops⟩
  | false =>
    have other : ¬ EntryMatches s e := fun holds => Bool.false_ne_true (compared.verdict.mpr holds)
    obtain ⟨bx, cx, ax, sp, es, writes⟩ := nextEntry_spec compared within room searching.below count short
    have goes : ∀ fuel, s.traverseFileEntry L (fuel + 1) =
        if s1.nextEntry.cx = 0 then some (s1.nextEntry.setCx 0) else s1.nextEntry.traverseFileEntry L fuel := by
      intro fuel
      rw [traverseFileEntry, done, Option.bind_eq_bind, Option.bind_some]
      exact if_neg Bool.false_ne_true
    exact .inr ⟨other, s1.nextEntry, bx, cx, ax, sp, es, writes, goes⟩

theorem traverseFileEntry_spec (placed : L.Placed) (k fuel : Nat) (enough : k < fuel) (searching : Searching L s)
    {e : Nat} (left : e + k + 1 = 16) (start : s.bx = 32 * e) (count : s.cx = k + 1) :
    ∃ s', s.traverseFileEntry L fuel = some s' ∧ Searched s e s' := by
  -- the induction is on the entries that are left after this one
  induction k generalizing s e fuel with
  | zero =>
    obtain ⟨fuel, rfl⟩ := Nat.exists_eq_succ_of_ne_zero (Nat.ne_of_gt enough)
    rcases traverseFileEntry_step placed searching (by omega) start (by omega) (by omega) with
      ⟨-, s', searched, stops⟩ | ⟨other, s1, bx, cx, ax, sp, es, writes, goes⟩
    · exact ⟨s', stops fuel, searched⟩
    · have behind : 16 ≤ e + 1 := by omega
      have nowhere : Nowhere (EntryMatches s) e 16 :=
        .skip other fun j later within => absurd (Nat.le_trans behind later) (Nat.not_le.mpr within)
      refine ⟨s1.setCx 0, by rw [goes, if_pos (by omega)], ?_⟩
      exact ⟨.inr ⟨setCx_cx _ _, nowhere⟩, ax, sp, es, writes.trans (.none rfl rfl)⟩
  | succ k ih =>
    obtain ⟨fuel, rfl⟩ := Nat.exists_eq_succ_of_ne_zero (Nat.ne_of_gt (Nat.lt_of_le_of_lt (Nat.zero_le _) enough))
    rcases traverseFileEntry_step placed searching (by omega) start (by omega) (by omega) with
      ⟨-, s', searched, stops⟩ | ⟨other, s1, bx, cx, ax, sp, es, writes, goes⟩
    · exact ⟨s', stops fuel, searched⟩
    · obtain ⟨s', rest, searched⟩ := ih fuel (by omega) (searching.writes placed writes sp es) (e := e + 1) (by omega)
        bx (by omega)
      refine ⟨s', by rw [goes, if_neg (by omega), rest], ?_⟩
      have area : s1.Below 2 = s.Below 2 := by
        unfold Below
        rw [sp]
      -- the later entries read the same before and after this one
      have same : ∀ j, j < 16 → (EntryMatches s1 j ↔ EntryMatches s j) := fun j within =>
        entryMatches_writes searching writes es within
      constructor
      · exact searched.verdict.imp
          (fun ⟨cx, e', first, bx⟩ => ⟨cx, e', (first.congr same).skip other, bx⟩)
          (fun ⟨cx, nowhere⟩ => ⟨cx, (nowhere.congr same).skip other⟩)
      · rw [searched.ax, ax]
      · rw [searched.sp, sp]
      · rw [searched.es, es]
      · exact writes.trans (area ▸ searched.writes)

/-! ## The sectors of the directory -/

/-- The entry with this number in the root directory begins with the name. -/
def Names (d : Disk) (e : Nat) : Prop :=
  ∀ j, j < 11 → d (rootDercotryStart + e / 16) (32 * (e % 16) + j) = kernelName j

/-- The state before the sector `i` of the directory. -/
structure Traversing (L : SearchLabels) (i : Nat) (s : Cpu) : Prop where
  ax : s.ax = rootDercotryStart + i
  count : s.word (phys setupSeg L.rootDirctoryCount) = 14 - i
  track : s.byte L.secPerTrk = 18
  searching : Searching L s

/-- Where a round writes: the buffer and the stack. -/
def SectorArea (s : Cpu) (a : Nat) : Prop := (0x9B000 ≤ a ∧ a < 0x9B200) ∨ s.Below 6 a

/-- What reading and searching a sector leaves. -/
structure SectorSearched (d : Disk) (i : Nat) (s s' : Cpu) : Prop where
  verdict : (s'.cx = 1 ∧ ∃ e, First (Names d) (16 * i) (16 * i + 16) e ∧ s'.bx = 32 * (e % 16)) ∨
    s'.cx = 0 ∧ Nowhere (Names d) (16 * i) (16 * i + 16)
  ax : s'.ax = s.ax
  sp : s'.sp = s.sp
  es : s'.es = s.es
  buffer : ∀ j, j < 512 → s'.mem (0x9B000 + j) = d (rootDercotryStart + i) j
  writes : Writes s.SectorArea s s'

/-- The numbers of the entries of one sector. -/
theorem first_sector {d : Disk} {i e : Nat} (first : First (fun e => Names d (16 * i + e)) 0 16 e) :
    First (Names d) (16 * i) (16 * i + 16) (16 * i + e) := by
  refine ⟨Nat.le_add_right _ _, Nat.add_lt_add_left first.below _, first.holds, fun j start before => ?_⟩
  obtain ⟨k, rfl⟩ := Nat.exists_eq_add_of_le start
  exact first.earlier k (Nat.zero_le _) (Nat.lt_of_add_lt_add_left before)

theorem nowhere_sector {d : Disk} {i : Nat} (none : Nowhere (fun e => Names d (16 * i + e)) 0 16) :
    Nowhere (Names d) (16 * i) (16 * i + 16) := by
  intro j start below
  obtain ⟨k, rfl⟩ := Nat.exists_eq_add_of_le start
  exact none k (Nat.zero_le _) (Nat.lt_of_add_lt_add_left below)

theorem SectorSearched.sector {i e : Nat} {s' : Cpu} (searched : SectorSearched d i s s')
    (first : First (Names d) (16 * i) (16 * i + 16) e) :
    ∀ j, j < 512 → s'.mem (phys bufferRootAddress bufferRootOffset + j) = d (rootDercotryStart + e / 16) j := by
  have start := first.start
  have below := first.below
  have number : e / 16 = i := by omega
  rw [number]
  exact searched.buffer

theorem sector_spec (placed : L.Placed) {i : Nat} (within : i < 14) (ready : Traversing L i s) :
    ∃ s1 s2, ((s.setBx bufferRootOffset).setCx 1).readSector d L.toLabels = some s1 ∧
      s1.findTheKernel L = some s2 ∧ SectorSearched d i s s2 := by
  obtain ⟨⟨_, _, _, text, image⟩, header, _, _, nameEnd⟩ := id placed
  obtain ⟨ax, count, track, searching⟩ := ready
  have stack := searching.stack
  have below := searching.below
  have start : phys s.es bufferRootOffset = 0x9B000 := by
    rw [searching.es]
    rfl
  generalize began : (s.setBx bufferRootOffset).setCx 1 = s0
  have ax0 : s0.ax = s.ax := began ▸ rfl
  have bx0 : s0.bx = 0 := began ▸ rfl
  have cx0 : s0.cx = 1 := began ▸ rfl
  have sp0 : s0.sp = s.sp := began ▸ rfl
  have es0 : s0.es = s.es := began ▸ rfl
  have mem0 : s0.mem = s.mem := began ▸ rfl
  have begin0 : Writes s.SectorArea s s0 := .none mem0 (began ▸ rfl)
  -- one sector, at 9000:B000
  have area : ∀ a, s0.Buffer s0.cx a ↔ 0x9B000 ≤ a ∧ a < 0x9B200 := by
    intro a
    rw [Buffer, es0, bx0, cx0, show phys s.es 0 = 0x9B000 from start]
  obtain ⟨s1, done, read⟩ := readSector_spec (d := d) (L := L.toLabels) (s := s0) (by rw [byte, mem0]; exact track)
    (by omega) (by rw [ax0, ax, rootDercotryStart]; omega) (by rw [cx0]; decide) (by rw [sp0]; exact below)
    fun a hit => .inr (Nat.le_trans (by decide) ((area a).mp hit).1)
  have sp1 : s1.sp = s.sp := read.aside.sp.trans sp0
  have es1 : s1.es = s.es := read.aside.es.trans es0
  have read1 : Writes s.SectorArea s s1 := by
    refine begin0.trans (read.writes.mono fun a hit => hit.imp (area a).mp fun lower => ?_)
    unfold Below at *
    rw [sp0] at lower
    exact lower
  -- the sector in memory is the sector on the disk
  have data : ∀ j, j < 512 → s1.mem (0x9B000 + j) = d (rootDercotryStart + i) j := by
    intro j within
    rw [read.data _ ((area _).mpr ⟨by omega, by omega⟩), ax0, ax, es0, bx0, show phys s.es 0 = 0x9B000 from start,
      Nat.add_sub_cancel_left, Nat.div_eq_of_lt within, Nat.mod_eq_of_lt within, Nat.add_zero]
  generalize counted : s1.setCx theSectorFileCount = s2
  have sp2 : s2.sp = s.sp := (counted ▸ rfl : s2.sp = s1.sp).trans sp1
  have es2 : s2.es = s.es := (counted ▸ rfl : s2.es = s1.es).trans es1
  have mem2 : s2.mem = s1.mem := counted ▸ rfl
  have searching2 : Searching L s2 := by
    refine ⟨fun j short => ?_, by rw [sp2]; exact stack, by rw [sp2]; exact below, es2.trans searching.es⟩
    rw [mem2, read1.kept, searching.name j short]
    unfold SectorArea Below phys setupSeg charlengthOfFileName at *
    omega
  -- entry `e` of the sector is entry `16 * i + e` of the directory
  have matching : ∀ e, e < 16 → (EntryMatches s2 e ↔ Names d (16 * i + e)) := by
    intro e short
    have sector : (16 * i + e) / 16 = i := by omega
    have entry : (16 * i + e) % 16 = e := by omega
    rw [EntryMatches, Names, sector, entry]
    have same : ∀ j, j < 11 → s2.mem (phys s2.es (32 * e + j)) = d (rootDercotryStart + i) (32 * e + j) := by
      intro j small
      rw [← data _ (by omega), mem2, es2, searching.es]
      rfl
    exact forall₂_congr fun j small => by rw [same j small]
  -- the sixteen entries are compared in order
  obtain ⟨s3, found, searched⟩ := traverseFileEntry_spec (s := s2) placed 15 0x10000 (by decide) searching2 (e := 0)
    (by decide) ((counted ▸ rfl : s2.bx = s1.bx).trans (read.aside.bx.trans bx0)) (counted ▸ rfl)
  have lower : Writes s.SectorArea s2 s3 := searched.writes.mono fun a hit => by
    unfold SectorArea Below phys at *
    rw [sp2] at hit
    omega
  refine ⟨s1, s3, done, by rw [findTheKernel, counted]; exact found, ?_⟩
  constructor
  · refine searched.verdict.imp ?_ ?_
    · rintro ⟨cx, e, first, bx⟩
      refine ⟨cx, 16 * i + e, first_sector (first.congr matching), ?_⟩
      have short := first.below
      rw [bx]
      omega
    · rintro ⟨cx, none⟩
      exact ⟨cx, nowhere_sector (none.congr matching)⟩
  · exact searched.ax.trans ((counted ▸ rfl : s2.ax = s1.ax).trans (read.ax.trans ax0))
  · rw [searched.sp, sp2]
  · rw [searched.es, es2]
  · intro j within
    rw [← data j within, searched.writes.kept, mem2]
    unfold Below phys setupSeg
    omega
  · have counting : Writes s.SectorArea s1 s2 := .none mem2 (counted ▸ rfl)
    exact read1.trans (counting.trans lower)

/-- After a sector without the name the next one is due, or the count is at 0. -/
theorem nextSector_spec (placed : L.Placed) {i : Nat} {s' : Cpu} (within : i < 14) (ready : Traversing L i s)
    (searched : SectorSearched d i s s') : Traversing L (i + 1) (s'.nextSector L) := by
  have down : (14 - i + 0xFFFF) % 0x10000 = 14 - (i + 1) := by omega
  obtain ⟨⟨_, _, _, text, image⟩, header, order, behind, nameEnd⟩ := id placed
  obtain ⟨ax, count, track, name, stack, below, es⟩ := ready
  obtain ⟨_, ax', sp', es', _, writes⟩ := searched
  -- the count, the header and the name lie below the stack, which lies below the buffer
  have kept : ∀ off, off + 6 < s.sp → s'.mem (phys setupSeg off) = s.mem (phys setupSeg off) := by
    intro off before
    rw [writes.kept]
    unfold SectorArea Below phys setupSeg
    omega
  have count' : s'.word (phys setupSeg L.rootDirctoryCount) = 14 - i := by
    rw [word, kept _ (by omega),
      show phys setupSeg L.rootDirctoryCount + 1 = phys setupSeg (L.rootDirctoryCount + 1) from rfl,
      kept _ (by omega), ← count]
    rfl
  have stored := storeWord_writes (s'.setAx ((s'.ax + 1) % 0x10000)) (phys setupSeg L.rootDirctoryCount)
    ((14 - i + 0xFFFF) % 0x10000)
  have aside := aside_storeWord (s'.setAx ((s'.ax + 1) % 0x10000)) (phys setupSeg L.rootDirctoryCount)
    ((14 - i + 0xFFFF) % 0x10000)
  have written := word_storeWord (s := s'.setAx ((s'.ax + 1) % 0x10000)) (a := phys setupSeg L.rootDirctoryCount)
    (w := (14 - i + 0xFFFF) % 0x10000) (Nat.mod_lt _ (by decide))
  have next : s'.nextSector L = (s'.setAx ((s'.ax + 1) % 0x10000)).storeWord (phys setupSeg L.rootDirctoryCount)
      ((14 - i + 0xFFFF) % 0x10000) := by
    rw [nextSector, ← count']
    rfl
  have other : ∀ off, off + 6 < s.sp → off ≠ L.rootDirctoryCount → off ≠ L.rootDirctoryCount + 1 →
      (s'.nextSector L).mem (phys setupSeg off) = s.mem (phys setupSeg off) := by
    intro off before first second
    rw [next, stored.kept, setAx_mem, kept off before]
    unfold phys
    omega
  have ax2 : (s'.nextSector L).ax = s'.ax + 1 := by
    rw [next]
    exact Nat.mod_eq_of_lt (by rw [ax', ax, rootDercotryStart]; omega)
  rw [← next] at stored aside written
  generalize s'.nextSector L = s2 at stored aside written other ax2 ⊢
  have sp2 : s2.sp = s.sp := aside.sp.trans sp'
  refine ⟨by rw [ax2, ax', ax, Nat.add_assoc], written.trans down, ?_, ⟨?_, by rw [sp2]; exact stack,
    by rw [sp2]; exact below, aside.es.trans (es'.trans es)⟩⟩
  · rw [byte, other _ (by omega) (by omega) (by omega)]
    exact track
  · intro j short
    rw [other _ (by unfold charlengthOfFileName at nameEnd; omega) (by omega) (by omega), name j short]

/-- The two words that hold the first cluster of an entry. -/
def startCluster (d : Disk) (e : Nat) : Nat :=
  (d (rootDercotryStart + e / 16) (32 * (e % 16) + 26)).toNat +
    256 * (d (rootDercotryStart + e / 16) (32 * (e % 16) + 27)).toNat

/-- The state at `FIND_THE_SETUP_FILE`: `es:bx` is the start of the entry in the buffer with its sector. -/
structure AtEntry (d : Disk) (e : Nat) (s : Cpu) : Prop where
  es : s.es = bufferRootAddress
  bx : s.bx = 32 * (e % 16)
  buffer : ∀ j, j < 512 → s.mem (phys bufferRootAddress bufferRootOffset + j) = d (rootDercotryStart + e / 16) j

theorem AtEntry.cluster {e : Nat} (found : AtEntry d e s) : s.firstCluster.ax = startCluster d e := by
  obtain ⟨es, bx, buffer⟩ := found
  have short : s.bx + 0x1A < 0x10000 := by omega
  have here : ∀ j, s.mem (phys s.es (s.bx + j)) =
      s.mem (phys bufferRootAddress bufferRootOffset + (32 * (e % 16) + j)) := by
    intro j
    rw [es, bx]
    rfl
  simp only [firstCluster, setAx_ax, setBx_bx, setBx_es, Nat.mod_eq_of_lt short, word, setBx_mem]
  rw [show phys s.es (s.bx + 0x1A) + 1 = phys s.es (s.bx + 0x1B) from rfl, here, here, buffer _ (by omega),
    buffer _ (by omega)]
  rfl

/-- One round of the loop over the sectors. -/
theorem traverseRootSector_step (placed : L.Placed) {i : Nat} (within : i < 14) (ready : Traversing L i s) :
    (∃ e s', First (Names d) (16 * i) (16 * i + 16) e ∧ AtEntry d e s' ∧
      ∀ fuel, s.traverseRootSector d L (fuel + 1) = some (true, s')) ∨
    (Nowhere (Names d) (16 * i) (16 * i + 16) ∧ ∃ s', Traversing L (i + 1) s' ∧
      ∀ fuel, s.traverseRootSector d L (fuel + 1) =
        if i + 1 = 14 then some (false, s') else s'.traverseRootSector d L fuel) := by
  obtain ⟨s1, s2, read, searched, after⟩ := sector_spec (d := d) placed within ready
  rcases after.verdict with ⟨cx, e, first, bx⟩ | ⟨cx, nowhere⟩
  · refine .inl ⟨e, s2, first, ⟨after.es.trans ready.searching.es, bx, after.sector first⟩, fun fuel => ?_⟩
    rw [traverseRootSector]
    simp only [read, searched, Option.bind_eq_bind, Option.bind_some]
    rw [if_pos cx]
  · have next := nextSector_spec placed within ready after
    refine .inr ⟨nowhere, s2.nextSector L, next, fun fuel => ?_⟩
    have last : 14 - (i + 1) = 0 ↔ i + 1 = 14 := by omega
    rw [traverseRootSector]
    simp only [read, searched, Option.bind_eq_bind, Option.bind_some]
    rw [if_neg (by rw [cx]; decide), next.count]
    simp only [last]

/-- The search from the sector `i` on. -/
theorem traverseRootSector_from (placed : L.Placed) (k fuel : Nat) (enough : k < fuel) {i : Nat} (left : i + k + 1 = 14)
    (ready : Traversing L i s) : ∃ found s', s.traverseRootSector d L fuel = some (found, s') ∧
      ((found = true ∧ ∃ e, First (Names d) (16 * i) 224 e ∧ AtEntry d e s') ∨
        found = false ∧ Nowhere (Names d) (16 * i) 224) := by
  -- the induction is on the sectors that are left after this one
  induction k generalizing s i fuel with
  | zero =>
    obtain ⟨fuel, rfl⟩ := Nat.exists_eq_succ_of_ne_zero (Nat.ne_of_gt enough)
    rcases traverseRootSector_step (d := d) placed (by omega) ready with
      ⟨e, s', first, there, stops⟩ | ⟨nowhere, s', -, goes⟩
    · exact ⟨true, s', stops fuel, .inl ⟨rfl, e, first.widen (by omega), there⟩⟩
    · refine ⟨false, s', by rw [goes, if_pos (by omega)], .inr ⟨rfl, ?_⟩⟩
      exact (show 16 * i + 16 = 224 by omega) ▸ nowhere
  | succ k ih =>
    obtain ⟨fuel, rfl⟩ := Nat.exists_eq_succ_of_ne_zero (Nat.ne_of_gt (Nat.lt_of_le_of_lt (Nat.zero_le _) enough))
    rcases traverseRootSector_step (d := d) placed (by omega) ready with
      ⟨e, s', first, there, stops⟩ | ⟨nowhere, s1, next, goes⟩
    · exact ⟨true, s', stops fuel, .inl ⟨rfl, e, first.widen (by omega), there⟩⟩
    · obtain ⟨found, s', rest, verdict⟩ := ih fuel (by omega) (i := i + 1) (by omega) next
      rw [Nat.mul_add] at verdict
      refine ⟨found, s', by rw [goes, if_neg (by omega), rest], verdict.imp ?_ ?_⟩
      · rintro ⟨yes, e, first, there⟩
        exact ⟨yes, e, first.skips (Nat.le_add_right _ _) nowhere, there⟩
      · rintro ⟨no, later⟩
        exact ⟨no, nowhere.skips later⟩

/-- The search ends, finds the name exactly if one of the 224 entries begins with it, and stops at
the first of these: the number of the cluster is read from it. -/
theorem traverseRootSector_spec (placed : L.Placed) (ready : Traversing L 0 s) {fuel : Nat} (enough : 14 ≤ fuel) :
    ∃ found s', s.traverseRootSector d L fuel = some (found, s') ∧ (found = true ↔ ∃ e, e < 224 ∧ Names d e) ∧
      (found = true → ∃ e, First (Names d) 0 224 e ∧ AtEntry d e s' ∧ s'.firstCluster.ax = startCluster d e) := by
  obtain ⟨found, s', done, ⟨rfl, e, first, there⟩ | ⟨rfl, nowhere⟩⟩ :=
    traverseRootSector_from (d := d) placed 13 fuel enough (i := 0) rfl ready
  · exact ⟨true, s', done, iff_of_true rfl ⟨e, first.below, first.holds⟩, fun _ => ⟨e, first, there, there.cluster⟩⟩
  · refine ⟨false, s', done, iff_of_false Bool.false_ne_true ?_, fun impossible => absurd impossible Bool.false_ne_true⟩
    rintro ⟨e, within, names⟩
    exact nowhere e (Nat.zero_le _) within names

/-! A directory whose entry 17 has the name, after one that has it up to the last character. -/

def searchLabels : SearchLabels := ⟨⟨11, 24, 36, 0x202, 0x230, 0x500⟩, 0x200, 0x203⟩

theorem searchLabels_placed : searchLabels.Placed := by
  constructor
  · constructor <;> decide
  all_goals decide

def searchMem (a : Nat) : BitVec 8 :=
  if a = phys setupSeg 24 then 18 else if a = phys setupSeg 0x200 then 14
  else if phys setupSeg 0x203 ≤ a ∧ a < phys setupSeg 0x203 + 11 then kernelName (a - phys setupSeg 0x203) else 0

def searchCpu : Cpu := ⟨rootDercotryStart, 0, 0, 0, 0, 0, 0, 0x500, bufferRootAddress, searchMem, []⟩

theorem searchCpu_ready : Traversing searchLabels 0 searchCpu := by
  refine ⟨rfl, by decide, by decide, ⟨?_, by decide, by decide, rfl⟩⟩
  intro j short
  have there : phys setupSeg 0x203 ≤ phys setupSeg (0x203 + j) ∧
      phys setupSeg (0x203 + j) < phys setupSeg 0x203 + 11 := by
    unfold phys
    omega
  have first : phys setupSeg (0x203 + j) ≠ phys setupSeg 24 := by
    unfold phys
    omega
  have second : phys setupSeg (0x203 + j) ≠ phys setupSeg 0x200 := by
    unfold phys
    omega
  have within : phys setupSeg (0x203 + j) - phys setupSeg 0x203 = j := by
    unfold phys
    omega
  change searchMem (phys setupSeg (0x203 + j)) = kernelName j
  rw [searchMem, if_neg first, if_neg second, if_pos there, within]

def searchDisk : Disk := fun sector off =>
  if sector = 20 ∧ off < 10 then kernelName off else if sector = 20 ∧ 32 ≤ off ∧ off < 43 then kernelName (off - 32)
  else if off = 58 then 2 else 0

theorem traverseRootSector_spec_second : ∃ found s', searchCpu.traverseRootSector searchDisk searchLabels 14 =
    some (found, s') ∧ (found = true ↔ ∃ e, e < 224 ∧ Names searchDisk e) ∧
      (found = true → ∃ e, First (Names searchDisk) 0 224 e ∧ AtEntry searchDisk e s' ∧
        s'.firstCluster.ax = startCluster searchDisk e) :=
  traverseRootSector_spec searchLabels_placed searchCpu_ready (by decide)

end Cpu

end OperatorSystem.Boot
