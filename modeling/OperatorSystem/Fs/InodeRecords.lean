import OperatorSystem.Fs.Calls
import Mathlib.Data.List.Pairwise
import Mathlib.Tactic.FinCases

/-!
# Inode records (`fs.h`, `inode.c`)

A `DINODE` has the layout of the first 32 bytes of a `MINODE`, and 32 of them
fill a block. The blocks of the devices are maps from offsets to bytes.
`writeRecord` is what writing an inode makes of them: the records of two inodes
do not overlap, so the writes commute, and each record can be read back.
-/

namespace OperatorSystem.Fs

/-! ### The layout of an inode -/

/-- Byte `k` of an integer, the low one first. -/
def byteOf {w : Nat} (v : BitVec w) (k : Nat) : BitVec 8 := (v >>> (8 * k)).setWidth 8

/-- The 16-bit integer at an offset. -/
def wordAt (bytes : Nat → BitVec 8) (a : Nat) : BitVec 16 := bytes (a + 1) ++ bytes a

/-- The 32-bit integer at an offset. -/
def longAt (bytes : Nat → BitVec 8) (a : Nat) : BitVec 32 := wordAt bytes (a + 2) ++ wordAt bytes a

theorem toNat_byteOf {w : Nat} (v : BitVec w) (k : Nat) : (byteOf v k).toNat = v.toNat / 2 ^ (8 * k) % 256 := by
  rw [byteOf, BitVec.toNat_setWidth, BitVec.toNat_ushiftRight, Nat.shiftRight_eq_div_pow]

theorem toNat_high_low {m n : Nat} (a : BitVec m) (b : BitVec n) : (a ++ b).toNat = a.toNat * 2 ^ n + b.toNat := by
  rw [BitVec.toNat_append, ← Nat.shiftLeft_add_eq_or_of_lt b.isLt, Nat.shiftLeft_eq]

theorem word_bytes (v : BitVec 16) : byteOf v 1 ++ byteOf v 0 = v := by
  apply BitVec.eq_of_toNat_eq
  simp only [toNat_high_low, toNat_byteOf]
  have bound := v.isLt
  omega

theorem long_bytes (v : BitVec 32) : (byteOf v 3 ++ byteOf v 2) ++ (byteOf v 1 ++ byteOf v 0) = v := by
  apply BitVec.eq_of_toNat_eq
  simp only [toNat_high_low, toNat_byteOf]
  have bound := v.isLt
  omega

/-- `DINODE` -/
@[ext] structure DInode where
  mode : BitVec 16
  uid : BitVec 16
  size : BitVec 32
  time : BitVec 32
  gid : BitVec 8
  nlinks : BitVec 8
  zone : Fin 9 → BitVec 16

def sizeofDInode : Nat := 32

/-- The fields of a `DINODE` by their offsets. -/
def DInode.read (bytes : Nat → BitVec 8) : DInode where
  mode := wordAt bytes 0
  uid := wordAt bytes 2
  size := longAt bytes 4
  time := longAt bytes 8
  gid := bytes 12
  nlinks := bytes 13
  zone i := wordAt bytes (14 + 2 * i)

/-- `MINODE`, with the fields that writing it back uses. -/
structure MInode extends Inode where
  mode : BitVec 16
  uid : BitVec 16
  size : BitVec 32
  mtime : BitVec 32
  gid : BitVec 8
  nlinks : BitVec 8
  zone : Fin 9 → BitVec 16

namespace MInode

/-- The fields that a `DINODE` has as well. -/
def view (inode : MInode) : DInode :=
  ⟨inode.mode, inode.uid, inode.size, inode.mtime, inode.gid, inode.nlinks, inode.zone⟩

theorem zones_neZero : NeZero 9 := ⟨by decide⟩

/-- The first 32 bytes of a `MINODE`. -/
def byteAt (inode : MInode) (k : Nat) : BitVec 8 :=
  if k < 2 then byteOf inode.mode k
  else if k < 4 then byteOf inode.uid (k - 2)
  else if k < 8 then byteOf inode.size (k - 4)
  else if k < 12 then byteOf inode.mtime (k - 8)
  else if k < 13 then inode.gid
  else if k < 14 then inode.nlinks
  else byteOf (inode.zone (@Fin.ofNat 9 zones_neZero ((k - 14) / 2))) ((k - 14) % 2)

/-- The cast `*(DINODE*)inode` keeps every field: the layouts agree. -/
theorem read_byteAt (inode : MInode) : DInode.read inode.byteAt = inode.view := by
  have size : longAt inode.byteAt 4 = inode.size := long_bytes inode.size
  have time : longAt inode.byteAt 8 = inode.mtime := long_bytes inode.mtime
  have zone : ∀ i : Fin 9, wordAt inode.byteAt (14 + 2 * i) = inode.zone i := by
    intro i
    have low : inode.byteAt (14 + 2 * i) = byteOf (inode.zone i) 0 := by
      fin_cases i <;> rfl
    have high : inode.byteAt (14 + 2 * i + 1) = byteOf (inode.zone i) 1 := by
      fin_cases i <;> rfl
    rw [wordAt, low, high]
    exact word_bytes _
  apply DInode.ext
  · exact word_bytes inode.mode
  · exact word_bytes inode.uid
  · exact size
  · exact time
  · rfl
  · rfl
  · exact funext zone

end MInode

/-! ### The place of a record -/

/-- The bytes of a block by their offsets. -/
abbrev Block := Nat → BitVec 8

/-- The blocks of the devices. -/
abbrev Blocks := BitVec 16 → BitVec 32 → Block

/-- `(inode->i_num - 1) % INODES_PER_BLOCK` -/
def slotOf (num : BitVec 16) : Nat := ((num.setWidth 32 - 1).umod inodesPerBlock).toNat

/-- An assignment to the record with this index. -/
def Block.setRecord (c : Block) (slot : Nat) (bytes : Nat → BitVec 8) : Block := fun k =>
  if k / sizeofDInode = slot then bytes (k % sizeofDInode) else c k

/-- The bytes of the record with this index. -/
def Block.record (c : Block) (slot : Nat) : Nat → BitVec 8 := fun k => c (sizeofDInode * slot + k)

/-- What `writeInode` makes of the blocks. -/
def writeRecord (superBlk : BitVec 16 → Option SuperBlock) (blocks : Blocks) (inode : MInode) : Blocks :=
  match superBlk inode.dev with
  | none => blocks
  | some sb => fun dev block =>
    if dev = inode.dev ∧ block = World.inodeBlock sb inode.num then
      (blocks dev block).setRecord (slotOf inode.num) inode.byteAt
    else blocks dev block

/-- Two inodes are not the same inode of one device. -/
def Apart (a b : MInode) : Prop := a.dev = b.dev → a.num ≠ b.num

section Places

variable {sb : SuperBlock} {num num' : BitVec 16} {c : Block} {slot slot' : Nat} {bytes bytes' : Nat → BitVec 8}

theorem toNat_num_pred (numbered : num ≠ 0) : (num.setWidth 32 - 1).toNat = num.toNat - 1 := by
  have positive : num.toNat ≠ 0 := fun zero => numbered (BitVec.eq_of_toNat_eq zero)
  have bound := num.isLt
  have one : (1 : BitVec 32).toNat = 1 := rfl
  rw [BitVec.toNat_sub, BitVec.toNat_setWidth, one]
  omega

theorem toNat_inodeBlock (sb : SuperBlock) (numbered : num ≠ 0) : (World.inodeBlock sb num).toNat =
    2 + sb.imapBlocks.toNat + sb.zmapBlocks.toNat + (num.toNat - 1) / 32 := by
  have imap := sb.imapBlocks.isLt
  have zmap := sb.zmapBlocks.isLt
  have bound := num.isLt
  have two : (2 : BitVec 32).toNat = 2 := rfl
  have many : (32 : BitVec 32).toNat = 32 := rfl
  simp only [World.inodeBlock, inodesPerBlock, BitVec.udiv_eq, BitVec.toNat_add, BitVec.toNat_udiv,
    toNat_num_pred numbered, BitVec.toNat_setWidth, two, many]
  omega

theorem slotOf_eq (numbered : num ≠ 0) : slotOf num = (num.toNat - 1) % 32 := by
  rw [slotOf, BitVec.umod_eq, BitVec.toNat_umod, toNat_num_pred numbered]
  rfl

/-- Two numbers have different blocks, or different records in one block. -/
theorem places_apart (sb : SuperBlock) (numbered : num ≠ 0) (numbered' : num' ≠ 0) (other : num ≠ num') :
    World.inodeBlock sb num ≠ World.inodeBlock sb num' ∨ slotOf num ≠ slotOf num' := by
  by_contra same
  obtain ⟨block, slot⟩ := not_or.mp same
  have blocks := congrArg BitVec.toNat (not_not.mp block)
  rw [toNat_inodeBlock sb numbered, toNat_inodeBlock sb numbered'] at blocks
  have slots := not_not.mp slot
  rw [slotOf_eq numbered, slotOf_eq numbered'] at slots
  have positive : num.toNat ≠ 0 := fun zero => numbered (BitVec.eq_of_toNat_eq zero)
  have positive' : num'.toNat ≠ 0 := fun zero => numbered' (BitVec.eq_of_toNat_eq zero)
  exact other (BitVec.eq_of_toNat_eq (by omega))

theorem setRecord_comm (other : slot ≠ slot') :
    (c.setRecord slot bytes).setRecord slot' bytes' = (c.setRecord slot' bytes').setRecord slot bytes := by
  funext k
  simp only [Block.setRecord]
  by_cases here : k / sizeofDInode = slot
  · rw [if_pos here, if_neg (here ▸ other), if_pos here]
  · rw [if_neg here, if_neg here]

/-- Reading back the record that was set. -/
theorem record_setRecord (c : Block) (slot : Nat) (bytes : Nat → BitVec 8) {k : Nat} (inside : k < sizeofDInode) :
    (c.setRecord slot bytes).record slot k = bytes k := by
  have place : (sizeofDInode * slot + k) / sizeofDInode = slot := by
    simp only [sizeofDInode] at inside ⊢
    omega
  have rest : (sizeofDInode * slot + k) % sizeofDInode = k := by
    simp only [sizeofDInode] at inside ⊢
    omega
  rw [Block.record, Block.setRecord, if_pos place, rest]

theorem record_setRecord_other (other : slot ≠ slot') {k : Nat} (inside : k < sizeofDInode) :
    (c.setRecord slot' bytes).record slot k = c.record slot k := by
  have place : (sizeofDInode * slot + k) / sizeofDInode = slot := by
    simp only [sizeofDInode] at inside ⊢
    omega
  rw [Block.record, Block.setRecord, place, if_neg other]
  rfl

end Places

/-! ### Sets of inodes -/

section Sets

variable {superBlk : BitVec 16 → Option SuperBlock} {blocks : Blocks} {a b : MInode} {l : List MInode}

theorem writeRecord_none (missing : superBlk b.dev = none) : writeRecord superBlk blocks b = blocks := by
  simp only [writeRecord, missing]

theorem writeRecord_apply {sb : SuperBlock} (found : superBlk b.dev = some sb) (dev : BitVec 16) (block : BitVec 32) :
    writeRecord superBlk blocks b dev block =
      if dev = b.dev ∧ block = World.inodeBlock sb b.num then
        (blocks dev block).setRecord (slotOf b.num) b.byteAt
      else blocks dev block := by
  simp only [writeRecord, found]

/-- Writing one inode leaves the record of another alone. -/
theorem record_writeRecord_other (apart : Apart a b) (numbered : a.num ≠ 0) (numbered' : b.num ≠ 0) {sb : SuperBlock}
    (found : superBlk a.dev = some sb) {k : Nat} (inside : k < sizeofDInode) :
    (writeRecord superBlk blocks b a.dev (World.inodeBlock sb a.num)).record (slotOf a.num) k =
      (blocks a.dev (World.inodeBlock sb a.num)).record (slotOf a.num) k := by
  cases found' : superBlk b.dev with
  | none => rw [writeRecord_none found']
  | some sb' =>
    rw [writeRecord_apply found']
    split
    next here =>
      obtain ⟨sameDev, sameBlock⟩ := here
      obtain rfl : sb' = sb := by
        rw [sameDev, found'] at found
        exact Option.some.inj found
      have other := (places_apart sb' numbered numbered' (apart sameDev)).resolve_left (not_not.mpr sameBlock)
      exact record_setRecord_other other inside
    next => rfl

theorem writeRecord_comm (apart : Apart a b) (numbered : a.num ≠ 0) (numbered' : b.num ≠ 0) :
    writeRecord superBlk (writeRecord superBlk blocks a) b =
      writeRecord superBlk (writeRecord superBlk blocks b) a := by
  cases found : superBlk a.dev with
  | none => rw [writeRecord_none found, writeRecord_none found]
  | some sb =>
    cases found' : superBlk b.dev with
    | none => rw [writeRecord_none found', writeRecord_none found']
    | some sb' =>
      funext dev block
      simp only [writeRecord_apply found, writeRecord_apply found']
      by_cases first : dev = a.dev ∧ block = World.inodeBlock sb a.num
      · by_cases second : dev = b.dev ∧ block = World.inodeBlock sb' b.num
        · -- both records are in this block
          have sameDev : a.dev = b.dev := first.1.symm.trans second.1
          obtain rfl : sb' = sb := by
            rw [sameDev, found'] at found
            exact Option.some.inj found
          have other := (places_apart sb' numbered numbered' (apart sameDev)).resolve_left
            (not_not.mpr (first.2.symm.trans second.2))
          rw [if_pos first, if_pos first, if_pos second, if_pos second]
          exact setRecord_comm other
        · rw [if_pos first, if_neg second, if_pos first, if_neg second]
      · rw [if_neg first, if_neg first]

theorem record_writeRecord {sb : SuperBlock} (found : superBlk a.dev = some sb) {k : Nat}
    (inside : k < sizeofDInode) :
    (writeRecord superBlk blocks a a.dev (World.inodeBlock sb a.num)).record (slotOf a.num) k = a.byteAt k := by
  rw [writeRecord_apply found, if_pos ⟨rfl, rfl⟩]
  exact record_setRecord _ _ _ inside

/-- The order of the writes does not matter. -/
theorem writeRecord_perm {l' : List MInode} (perm : l.Perm l') (apart : l.Pairwise Apart)
    (numbered : ∀ a ∈ l, a.num ≠ 0) (blocks : Blocks) :
    l.foldl (writeRecord superBlk) blocks = l'.foldl (writeRecord superBlk) blocks := by
  have symm : Std.Symm Apart := ⟨fun a b apart same => (apart same.symm).symm⟩
  refine perm.foldl_eq' (fun a first b second blocks => ?_) blocks
  by_cases same : a = b
  · rw [same]
  · exact writeRecord_comm (apart.forall first second same) (numbered a first) (numbered b second)

theorem record_foldl_other (apart : ∀ b ∈ l, Apart a b) (numbered : a.num ≠ 0) (numbered' : ∀ b ∈ l, b.num ≠ 0)
    {sb : SuperBlock} (found : superBlk a.dev = some sb) {k : Nat} (inside : k < sizeofDInode) (blocks : Blocks) :
    (l.foldl (writeRecord superBlk) blocks a.dev (World.inodeBlock sb a.num)).record (slotOf a.num) k =
      (blocks a.dev (World.inodeBlock sb a.num)).record (slotOf a.num) k := by
  induction l generalizing blocks with
  | nil => rfl
  | cons b l ih =>
    obtain ⟨first, rest⟩ := List.forall_mem_cons.mp apart
    obtain ⟨one, more⟩ := List.forall_mem_cons.mp numbered'
    rw [List.foldl_cons, ih rest more]
    exact record_writeRecord_other first numbered one found inside

/-- What is read back after all writes is the inode. -/
theorem record_foldl (apart : l.Pairwise Apart) (numbered : ∀ a ∈ l, a.num ≠ 0) (written : a ∈ l)
    {sb : SuperBlock} (found : superBlk a.dev = some sb) {k : Nat} (inside : k < sizeofDInode) (blocks : Blocks) :
    (l.foldl (writeRecord superBlk) blocks a.dev (World.inodeBlock sb a.num)).record (slotOf a.num) k =
      a.byteAt k := by
  induction l generalizing blocks with
  | nil => cases written
  | cons b l ih =>
    obtain ⟨first, others⟩ := List.pairwise_cons.mp apart
    obtain ⟨one, more⟩ := List.forall_mem_cons.mp numbered
    rw [List.foldl_cons]
    rcases List.mem_cons.mp written with rfl | later
    · rw [record_foldl_other first one more found inside]
      exact record_writeRecord found inside
    · exact ih others more later _

theorem DInode.read_congr {f g : Nat → BitVec 8} (same : ∀ k < sizeofDInode, f k = g k) :
    DInode.read f = DInode.read g := by
  have word : ∀ k, k + 1 < sizeofDInode → wordAt f k = wordAt g k := by
    intro k inside
    rw [wordAt, wordAt, same k (by omega), same (k + 1) inside]
  have long : ∀ k, k + 3 < sizeofDInode → longAt f k = longAt g k := by
    intro k inside
    rw [longAt, longAt, word k (by omega), word (k + 2) inside]
  have zone : ∀ i : Fin 9, wordAt f (14 + 2 * i) = wordAt g (14 + 2 * i) := by
    intro i
    exact word _ (by simp only [sizeofDInode]; omega)
  simp only [DInode.read, word 0 (by decide), word 2 (by decide), long 4 (by decide), long 8 (by decide),
    same 12 (by decide), same 13 (by decide), zone]

end Sets

end OperatorSystem.Fs
