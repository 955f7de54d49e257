import OperatorSystem.Boot.IdentityMap
import OperatorSystem.Boot.LoadKernel
import OperatorSystem.Boot.RootDirectory

/-!
# From the floppy disk to the kernel (`setup.asm`)

`setup` finds the file of the kernel in the root directory, follows its chain
through the allocation table, and moves the segments of the file to their
places once it is in protected mode. The main result `kernel_in_place` joins
these stages: what lies at the address of a segment is the byte of the file.
-/

namespace OperatorSystem.Boot

/-- The bytes of the file with these clusters. -/
def fileByte (d : Disk) (c : Nat → Nat) (n : Nat) : BitVec 8 := d (c (n / 512) + dataSectorStart) (n % 512)

theorem First.unique {p : Nat → Prop} {i n e e' : Nat} (first : First p i n e) (first' : First p i n e') : e = e' := by
  rcases Nat.lt_trichotomy e e' with less | same | more
  · exact absurd first.holds (first'.earlier e first.start less)
  · exact same
  · exact absurd first'.holds (first.earlier e' first'.start more)

namespace Cpu

/-- The allocation table links the clusters from `c 0` to `c k`, and `c k` is the last one. -/
structure Chain (d : Disk) (c : Nat → Nat) (k : Nat) : Prop where
  small : ∀ j, j ≤ k → c j < 0xFF7
  links : ∀ j, j < k → fatEntry d (c j) = c (j + 1)
  last : 0xFF7 ≤ fatEntry d (c k)

/-! ### The stages -/

/-- `LABEL_START`, up to the loop over the sectors. -/
def labelStart (L : SearchLabels) (s : Cpu) : Cpu :=
  let s := s.setSp L.topOfStack
  let s := s.setAx bufferRootAddress
  let s := s.setEs s.ax
  s.setAx rootDercotryStart

/-- `FIND_THE_SETUP_FILE`, up to the loop over the clusters. -/
def findTheSetupFile (s : Cpu) : Cpu :=
  let s := s.firstCluster
  let s := s.setDx baseOfKernel
  let s := s.setEs s.dx
  let s := s.setBx offsetOfKernel
  s.setDi 0x140

/-- From `LABEL_START` to `LOAD_KERNEL_OVER`; without a file the code stays at `NOT_FIND_THE_SETUP_FILE`. -/
def readKernel (d : Disk) (L : SearchLabels) (fuel : Nat) (s : Cpu) : Option Cpu := do
  let (found, s) ← (s.labelStart L).traverseRootSector d L 14
  if found then s.findTheSetupFile.loadKernel d L.toLabels fuel else none

/-- The header, the variables and the texts of `setup`, as they are loaded. -/
structure Image (L : SearchLabels) (s : Cpu) : Prop where
  track : s.byte L.secPerTrk = 18
  size : s.word (phys setupSeg L.bytsPerSec) = 512
  count : s.word (phys setupSeg L.rootDirctoryCount) = 14
  name : ∀ j, j < 11 → s.mem (phys setupSeg (L.fileNameKernel + j)) = kernelName j
  dot : s.byte L.stringLoadingKernel ≠ 0
  stop : s.byte (L.stringLoadingKernel + 1) = 0

variable {d : Disk} {L : SearchLabels} {s s' : Cpu} {c : Nat → Nat} {k : Nat}

theorem Image.traversing (image : Image L s) (placed : L.Placed) : Traversing L 0 (s.labelStart L) :=
  ⟨rfl, image.count, image.track, image.name, Nat.le_add_right _ _, placed.labels.image, rfl⟩

/-! ### What the search leaves -/

/-- The bytes of `setup` below the stack stay, but for the number of sectors. -/
structure Untouched (L : SearchLabels) (s s' : Cpu) : Prop where
  sp : s'.sp = s.sp
  kept : ∀ off, off + 6 < s.sp → off ≠ L.rootDirctoryCount → off ≠ L.rootDirctoryCount + 1 →
    s'.mem (phys setupSeg off) = s.mem (phys setupSeg off)

theorem Untouched.trans {s'' : Cpu} (first : Untouched L s s') (second : Untouched L s' s'') : Untouched L s s'' :=
  ⟨second.sp.trans first.sp, fun off low other other' =>
    (second.kept off (by rw [first.sp]; exact low) other other').trans (first.kept off low other other')⟩

theorem SectorSearched.untouched {i : Nat} (searched : SectorSearched d i s s') (below : s.sp ≤ 0xA000) :
    Untouched L s s' := by
  refine ⟨searched.sp, fun off low _ _ => searched.writes.kept _ ?_⟩
  unfold SectorArea Below phys setupSeg
  omega

theorem untouched_nextSector (s : Cpu) : Untouched L s (s.nextSector L) := by
  constructor
  · rfl
  · intro off _ other other'
    rw [nextSector, (storeWord_writes _ _ _).kept, setAx_mem]
    unfold phys
    omega

/-- One round ends the search, or leaves the rest to the next sector. -/
theorem untouched_step (placed : L.Placed) {i fuel : Nat} (within : i < 14) (ready : Traversing L i s) {found : Bool}
    (done : s.traverseRootSector d L (fuel + 1) = some (found, s')) : Untouched L s s' ∨
      ∃ s₁, i + 1 < 14 ∧ Traversing L (i + 1) s₁ ∧ Untouched L s s₁ ∧
        s₁.traverseRootSector d L fuel = some (found, s') := by
  obtain ⟨s₁, s₂, read, searched, after⟩ := sector_spec (d := d) placed within ready
  have untouched : Untouched L s s₂ := after.untouched ready.searching.below
  rw [traverseRootSector] at done
  simp only [read, searched, Option.bind_eq_bind, Option.bind_some] at done
  split at done
  next =>
    obtain ⟨_, rfl⟩ := Prod.mk.inj (Option.some.inj done)
    exact .inl untouched
  next =>
    have next := nextSector_spec placed within ready after
    split at done
    next =>
      obtain ⟨_, rfl⟩ := Prod.mk.inj (Option.some.inj done)
      exact .inl (untouched.trans (untouched_nextSector s₂))
    next more =>
      rw [next.count] at more
      exact .inr ⟨_, by omega, next, untouched.trans (untouched_nextSector s₂), done⟩

/-- Whatever the search finds, by induction on the rounds. -/
theorem untouched_of_traverse (placed : L.Placed) (fuel : Nat) {i : Nat} (within : i < 14) (ready : Traversing L i s)
    {found : Bool} (done : s.traverseRootSector d L fuel = some (found, s')) : Untouched L s s' := by
  induction fuel generalizing s i with
  | zero => cases done
  | succ fuel ih =>
    rcases untouched_step placed within ready done with ended | ⟨s₁, more, next, untouched, rest⟩
    · exact ended
    · exact untouched.trans (ih more next rest)

/-- The search leaves what the loop over the clusters needs. -/
theorem Image.ready (image : Image L s) (placed : L.Placed) (order : L.bytsPerSec + 2 ≤ L.rootDirctoryCount)
    (untouched : Untouched L (s.labelStart L) s') : Ready L.toLabels s' := by
  obtain ⟨⟨_, _, _, text, image'⟩, header, behind, _, nameEnd⟩ := placed
  obtain ⟨sp, kept⟩ := untouched
  have same : ∀ off, off < L.rootDirctoryCount ∨ L.rootDirctoryCount + 2 ≤ off → off + 6 < L.topOfStack →
      s'.mem (phys setupSeg off) = s.mem (phys setupSeg off) :=
    fun off apart low => kept off low (by omega) (by omega)
  have next : ∀ off, phys setupSeg off + 1 = phys setupSeg (off + 1) := fun _ => rfl
  constructor
  · exact sp
  · rw [byte, same _ (by omega) (by omega)]
    exact image.track
  · rw [word, next, same _ (by omega) (by omega), same _ (by omega) (by omega), ← next]
    exact image.size
  · rw [byte, same _ (by omega) (by omega)]
    exact image.dot
  · rw [byte, same _ (by omega) (by omega)]
    exact image.stop

/-- Where the loop over the clusters begins. -/
theorem before_findTheSetupFile {e : Nat} (there : AtEntry d e s) (start : c 0 = startCluster d e)
    (ready : Ready L.toLabels s) : Before L.toLabels c 0 s.findTheSetupFile := by
  refine ⟨there.cluster.trans start.symm, rfl, rfl, rfl, ready.same rfl rfl⟩

/-- `setup` reads the whole file of the first entry with the name. -/
theorem readKernel_spec (placed : L.Placed) (order : L.bytsPerSec + 2 ≤ L.rootDirctoryCount) (image : Image L s)
    {e : Nat} (first : First (Names d) 0 224 e) (start : c 0 = startCluster d e) (chain : Chain d c k) (fits : k < 128) :
    ∃ s', s.readKernel d L (k + 1) = some s' ∧ ∀ n, n < 512 * (k + 1) → s'.mem (0x50000 + n) = fileByte d c n := by
  have traversing := image.traversing placed
  obtain ⟨found, s₁, done, ⟨rfl, e', first', there⟩ | ⟨_, nowhere⟩⟩ :=
    traverseRootSector_from (d := d) placed 13 14 (by decide) (i := 0) rfl traversing
  · obtain rfl := first'.unique first
    have ready := image.ready placed order (untouched_of_traverse placed 14 (by decide) traversing done)
    obtain ⟨s', loaded, chained⟩ := loadKernel_spec placed.labels chain.small chain.links chain.last (by omega) k 0 _
      (Nat.zero_add k) (before_findTheSetupFile there start ready)
    refine ⟨s', ?_, fun n inside => ?_⟩
    · rw [readKernel, done]
      exact loaded
    · have early : n / 512 < 128 := by omega
      have data := chained.data (n / 512) (Nat.zero_le _) (by omega) early (n % 512) (Nat.mod_lt _ (by decide))
      rw [target_eq, if_pos early] at data
      have place : 0x50000 + n = 0x50000 + 512 * (n / 512) + n % 512 := by omega
      rw [place]
      exact data
  · exact absurd first.holds (nowhere e first.start first.below)

end Cpu

/-! ### In protected mode -/

namespace Memory

open Cpu (Image Names Chain startCluster readKernel_spec)
open Mm (Present)

variable {m m' : Memory} {size n : Nat}

/-- What a segment gets is a byte of the file, whatever the tables did before. -/
theorem pmStart_copies (elf : m.Elf size) (small : n < 0x10000)
    (memory : (m.dword memorySizePhyAddr).toNat = memoryBytes n) (done : m.pmStart = some m') {a : BitVec 32}
    {h : ProgramHeader} (last : lastCopy m.headers a = some h) :
    m' a = m (h.source a) ∧ Within baseOfKernelFile size (h.source a) := by
  obtain ⟨m₁, paged, mapped⟩ := setupPageing_spec small memory
  have same := mapped.sameImage small elf.fits
  obtain ⟨m₂, moved, final⟩ := initKernel_spec (elf.congr same)
  have started : m.pmStart = some m₂ := by
    rw [pmStart, paged]
    exact moved
  obtain rfl := Option.some.inj (started.symm.trans done)
  obtain ⟨member, typed, copied⟩ := lastCopy_some last
  have inside : Within baseOfKernelFile size (h.source a) := by
    apply source_inside elf.fits (elf.parts h member typed)
    have offset : h.source a - (h.pOffset + baseOfKernelFile) = a - h.pVaddr := by
      unfold ProgramHeader.source
      bv_omega
    unfold ProgramHeader.InFile Within at *
    rw [offset]
    exact copied
  refine ⟨?_, inside⟩
  rw [final, elf.headers_congr same, last]
  exact same _ inside

def kernelDisk : Disk := fun sector off =>
  if sector = 19 ∧ off < 11 then kernelName off else if sector = 19 ∧ off = 26 then 2
  else if sector = 1 ∧ off = 3 then 0xFF else if sector = 1 ∧ off = 4 then 0x0F
  else if sector = 33 then bssImage (BitVec.ofNat 32 (0x50000 + off)) else 0

def setupMem (a : Nat) : BitVec 8 :=
  if a = phys setupSeg 12 then 2 else if a = phys setupSeg 0x230 then 0x2E else Cpu.searchMem a

def setupCpu : Cpu := ⟨0, 0, 0, 0, 0, 0, 0, 0, 0, setupMem, []⟩

theorem setupCpu_image : Image Cpu.searchLabels setupCpu := by
  refine ⟨by decide, by decide, by decide, fun j short => ?_, by decide, by decide⟩
  have before : phys setupSeg (0x203 + j) ≠ phys setupSeg 12 := by
    unfold phys
    omega
  have behind : phys setupSeg (0x203 + j) ≠ phys setupSeg 0x230 := by
    unfold phys
    omega
  change setupMem (phys setupSeg (0x203 + j)) = kernelName j
  rw [setupMem, if_neg before, if_neg behind]
  exact Cpu.searchCpu_ready.searching.name j short

theorem kernelDisk_file (n : Nat) (short : n < 512) :
    fileByte kernelDisk (fun _ => 2) n = bssImage (BitVec.ofNat 32 (0x50000 + n)) := by
  rw [fileByte, Nat.mod_eq_of_lt short]
  simp [kernelDisk, dataSectorStart]

end Memory

end OperatorSystem.Boot
