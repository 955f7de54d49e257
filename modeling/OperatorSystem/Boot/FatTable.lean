import Mathlib.Tactic.SplitIfs
import OperatorSystem.Boot.LoadKernel

/-!
# Decoding the file allocation table

Two entries of twelve bits share three bytes. `readFATValue` undoes this for
every entry of a table, also where an entry straddles two sectors.
-/

namespace OperatorSystem.Boot.Cpu

/-- The byte at an offset of a packed table. -/
def packed (table : Nat → BitVec 12) (offset : Nat) : BitVec 8 :=
  let even := table (2 * (offset / 3))
  let odd := table (2 * (offset / 3) + 1)
  if offset % 3 = 0 then even.extractLsb' 0 8
  else if offset % 3 = 1 then odd.extractLsb' 0 4 ++ even.extractLsb' 8 4
  else odd.extractLsb' 4 8

/-- The table lies packed in the first `bytes` bytes from `FAT_SECTOR_START` on. -/
def HoldsTable (d : Disk) (table : Nat → BitVec 12) (bytes : Nat) : Prop :=
  ∀ o, o < bytes → d (fatSectorStart + o / 512) (o % 512) = packed table o

theorem packed_toNat (table : Nat → BitVec 12) (o : Nat) : (packed table o).toNat =
    if o % 3 = 0 then (table (2 * (o / 3))).toNat % 256
    else if o % 3 = 1 then (table (2 * (o / 3))).toNat / 256 % 16 + 16 * ((table (2 * (o / 3) + 1)).toNat % 16)
    else (table (2 * (o / 3) + 1)).toNat / 16 % 256 := by
  have even := (table (2 * (o / 3))).isLt
  have odd := (table (2 * (o / 3) + 1)).isLt
  rw [packed]
  split_ifs
  · simp [BitVec.extractLsb'_toNat]
  · simp only [BitVec.toNat_append, BitVec.extractLsb'_toNat, Nat.shiftRight_eq_div_pow]
    rw [Nat.shiftLeft_eq, ← Nat.shiftLeft_eq, ← Nat.shiftLeft_add_eq_or_of_lt (by omega), Nat.shiftLeft_eq]
    omega
  · simp only [BitVec.extractLsb'_toNat, Nat.shiftRight_eq_div_pow]

theorem fatEntry_packed {d : Disk} {table : Nat → BitVec 12} {bytes n : Nat} (holds : HoldsTable d table bytes)
    (inside : 3 * n / 2 + 1 < bytes) : fatEntry d n = (table n).toNat := by
  refine fatEntry_eq (fun n => (table n).toNat) (table n).isLt fun o place => ?_
  rw [holds o (by omega), packed_toNat]

/-- `readFATValue` gives the entry of a packed table, with `es` and `bx` as before. Offsets are
words, so the table has up to 128 sectors; one of twelve-bit clusters has no more than twelve. -/
theorem readFATValue_packed {d : Disk} {L : Labels} {s : Cpu} (placed : L.Placed) (track : s.byte L.secPerTrk = 18)
    (size : s.word (phys setupSeg L.bytsPerSec) = 512) (bx : s.bx < 0x10000) (es : s.es < 0x10000)
    (stack : L.topOfStack ≤ s.sp + 100) (below : s.sp ≤ 0xA000) {table : Nat → BitVec 12} (sectors : Nat)
    (words : sectors ≤ 128) (holds : HoldsTable d table (512 * sectors)) (inside : 3 * s.ax / 2 + 1 < 512 * sectors) :
    ∃ s', s.readFATValue d L = some s' ∧ s'.ax = (table s.ax).toNat ∧ s'.es = s.es ∧ s'.bx = s.bx := by
  obtain ⟨s', done, value⟩ := readFATValue_spec (d := d) placed track size (by omega) bx es stack below
  exact ⟨s', done, by rw [value.ax, fatEntry_packed holds inside], value.aside.es, value.aside.bx⟩

/-- Entry 341 of a table of nine sectors: its bytes are the last of the first sector and the first of the second. -/
theorem readFATValue_packed_straddling :
    let table : Nat → BitVec 12 := fun n => BitVec.ofNat 12 n
    let d : Disk := fun sector off => packed table (512 * (sector - fatSectorStart) + off)
    ∃ s', (startCpu.setAx 341).readFATValue d labels = some s' ∧ s'.ax = (table (startCpu.setAx 341).ax).toNat ∧
      s'.es = (startCpu.setAx 341).es ∧ s'.bx = (startCpu.setAx 341).bx := by
  refine readFATValue_packed labels_placed (by decide) (by decide) (by decide) (by decide) (by decide) (by decide)
    9 (by decide) ?_ (by decide)
  intro o _
  have whole : 512 * (fatSectorStart + o / 512 - fatSectorStart) + o % 512 = o := by omega
  dsimp only
  rw [whole]

end OperatorSystem.Boot.Cpu
