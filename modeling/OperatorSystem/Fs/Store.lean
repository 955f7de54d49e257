import OperatorSystem.Fs.InodeRecords
import OperatorSystem.Fs.Queues

/-!
# A task alone with the buffer cache (`buffer.c`, `inode.c`)

The functions of `buffer.c` and `inode.c` with the contents of the buffers and
of the disk, for one task. `ll_rw_block` has transferred the block when it
returns. Nobody else is there to release what the task waits for, so a wait for
a lock or for a free buffer never comes back. The call of `syncDev` in `getblk`
goes to the parameter `sync`, and `syncDev` closes the circle at its end.
-/

namespace OperatorSystem.Fs

structure Store where
  cache : Cache
  /-- `INODE_TABLE` -/
  inodes : Nat → MInode
  /-- `getSuper`; nothing locks a super block. -/
  superBlk : BitVec 16 → Option SuperBlock
  /-- What `b_data` of a head points to; the blocks of the heads do not overlap. -/
  data : Addr → Block
  disk : Blocks

namespace Store

def head (s : Store) (b : Addr) : BufferHead := s.cache.heads b

def setHead (s : Store) (b : Addr) (h : BufferHead) : Store := { s with cache := s.cache.setHead b h }

def setInode (s : Store) (i : Nat) (inode : MInode) : Store :=
  { s with inodes := Function.update s.inodes i inode }

/-- Enough for a search through one of the queues. -/
def searchFuel (s : Store) : Nat := s.cache.nrBuffers + 1

/-! ### Buffers -/

def waitOnBuffer (s : Store) (b : Addr) : Option Store := if (s.head b).lock then none else some s

/-- `ll_rw_block(READ, bh)` -/
def readBlock (s : Store) (b : Addr) : Store :=
  if (s.head b).uptodate then s
  else
    { s.setHead b { s.head b with uptodate := true } with
      data := Function.update s.data b (s.disk (s.head b).dev (s.head b).blockNr) }

/-- `ll_rw_block(WRITE, bh)` -/
def writeBlock (s : Store) (b : Addr) : Store :=
  if (s.head b).dirt then
    { s.setHead b { s.head b with dirt := false } with
      disk := fun dev block =>
        if dev = (s.head b).dev ∧ block = (s.head b).blockNr then s.data b else s.disk dev block }
  else s

/-- The count of a free buffer stays where `brelse` ends. -/
def brelse (s : Store) (b : Addr) : Option Store := do
  let s ← s.waitOnBuffer b
  if (s.head b).count = 0 then none
  else return s.setHead b { s.head b with count := (s.head b).count - 1 }

def getHashTable : Nat → Store → BitVec 32 → BitVec 32 → Option (Option Addr × Store)
  | 0, _, _, _ => none
  | fuel + 1, s, dev, block => do
    match ← s.cache.findBuffer s.searchFuel dev block with
    | none => return (none, s)
    | some b =>
      let s ← (s.setHead b { s.head b with count := (s.head b).count + 1 }).waitOnBuffer b
      if (s.head b).dev.setWidth 32 = dev ∧ (s.head b).blockNr = block then return (some b, s)
      else getHashTable fuel (s.setHead b { s.head b with count := (s.head b).count - 1 }) dev block

/-- The assignment of the inode to its record in the buffer, which is modified then. -/
def storeRecord (s : Store) (i : Nat) (b : Addr) : Store :=
  { s.setHead b { s.head b with dirt := true } with
    data := Function.update s.data b ((s.data b).setRecord (slotOf (s.inodes i).num) (s.inodes i).byteAt) }

section Nested

variable (sync : BitVec 32 → Store → Option Store)

/-- The loop of `getblk` on a dirty victim, and whether nobody has taken it since. -/
def flushVictim : Nat → Store → Addr → Option (Bool × Store)
  | 0, _, _ => none
  | fuel + 1, s, b =>
    if (s.head b).dirt then do
      let s ← sync ((s.head b).dev.setWidth 32) s
      let s ← s.waitOnBuffer b
      if (s.head b).count ≠ 0 then return (false, s) else flushVictim fuel s b
    else some (true, s)

/-- `getblk`; a `goto repeat` takes one unit of fuel. -/
def getblkWith : Nat → Store → BitVec 32 → BitVec 32 → Option (Addr × Store)
  | 0, _, _, _ => none
  | fuel + 1, s, dev, block => do
    let (found, s) ← getHashTable (fuel + 1) s dev block
    match found with
    | some b => return (b, s)
    | none =>
      -- without a free buffer the task sleeps on `BUFFER_WAIT`
      let b ← ← s.cache.victim s.searchFuel
      let s ← s.waitOnBuffer b
      if (s.head b).count ≠ 0 then getblkWith fuel s dev block
      else
        let (free, s) ← flushVictim sync (fuel + 1) s b
        if ¬ free then getblkWith fuel s dev block
        else
          match ← s.cache.findBuffer s.searchFuel dev block with
          | some _ => getblkWith fuel s dev block
          | none =>
            let cache ← s.cache.claim b dev block
            return (b, { s with cache })

/-- `bread`, with `none` for NULL. -/
def breadWith (fuel : Nat) (s : Store) (dev block : BitVec 32) : Option (Option Addr × Store) := do
  let (b, s) ← getblkWith sync fuel s dev block
  if (s.head b).uptodate then return (some b, s)
  else
    let s ← (s.readBlock b).waitOnBuffer b
    if (s.head b).uptodate then return (some b, s)
    else return (none, ← s.brelse b)

/-! ### Inodes -/

/-- `writeInode`; without a super block or without the buffer it does not come back. -/
def writeInodeWith (fuel : Nat) (s : Store) (i : Nat) : Option Store := do
  if (s.inodes i).lock then none
  else
    let s := s.setInode i { s.inodes i with lock := true }
    if ¬ (s.inodes i).dirt ∨ (s.inodes i).dev = 0 then return s.setInode i { s.inodes i with lock := false }
    else
      let sb ← s.superBlk (s.inodes i).dev
      let (bh, s) ← breadWith sync fuel s ((s.inodes i).dev.setWidth 32) (World.inodeBlock sb (s.inodes i).num)
      let b ← bh
      let s := s.storeRecord i b
      let s := s.setInode i { s.inodes i with dirt := false }
      let s ← s.brelse b
      return s.setInode i { s.inodes i with lock := false }

/-- `syncInodes` over the entries of a list, with the wait for each inode first. -/
def syncInodesWith (fuel : Nat) : List Nat → Store → Option Store
  | [], s => some s
  | i :: l, s =>
    if (s.inodes i).lock then none
    else if (s.inodes i).dirt ∧ ¬ (s.inodes i).pipe then
      (writeInodeWith sync fuel s i).bind (syncInodesWith fuel l)
    else syncInodesWith fuel l s

end Nested

/-! ### Devices -/

/-- One of the loops of `syncDev`, over the heads with these indices. -/
def syncPass (dev : BitVec 32) : List Nat → Store → Option Store
  | [], s => some s
  | i :: l, s =>
    let b := headAddr i
    if (s.head b).dev.setWidth 32 ≠ dev then syncPass dev l s
    else do
      let s ← s.waitOnBuffer b
      syncPass dev l (if (s.head b).dirt then s.writeBlock b else s)

/-- `syncDev`, with one unit of fuel for each nested call. -/
def syncDev : Nat → BitVec 32 → Store → Option Store
  | 0, _, _ => none
  | fuel + 1, dev, s => do
    let s ← syncPass dev (List.range s.cache.nrBuffers) s
    let s ← syncInodesWith (syncDev fuel) fuel (List.range nrInode) s
    syncPass dev (List.range s.cache.nrBuffers) s

def getblk (fuel : Nat) : Store → BitVec 32 → BitVec 32 → Option (Addr × Store) := getblkWith (syncDev fuel) fuel

def bread (fuel : Nat) : Store → BitVec 32 → BitVec 32 → Option (Option Addr × Store) := breadWith (syncDev fuel) fuel

def writeInode (fuel : Nat) : Store → Nat → Option Store := writeInodeWith (syncDev fuel) fuel

/-! ### What a block holds -/

/-- The head is for this block. -/
def IsFor (h : BufferHead) (dev : BitVec 16) (block : BitVec 32) : Prop := h.dev = dev ∧ h.blockNr = block

/-- The block has the contents `c`, in the buffer if it has one: a modified
buffer has them, and so has an updated one; the disk has them if the buffer is
not modified, or not updated, or if there is none. -/
structure Holds (s : Store) (dev : BitVec 16) (block : BitVec 32) (c : Block) : Prop where
  buffer : ∀ b, s.cache.IsHead b → IsFor (s.head b) dev block →
    ((s.head b).dirt = true ∨ (s.head b).uptodate = true) → s.data b = c
  disk : ∀ b, s.cache.IsHead b → IsFor (s.head b) dev block →
    ((s.head b).dirt = false ∨ (s.head b).uptodate = false) → s.disk dev block = c
  absent : (∀ b, s.cache.IsHead b → ¬ IsFor (s.head b) dev block) → s.disk dev block = c

/-- The two heads are for the same block, with the same flags for its contents. -/
structure SameBlock (h h' : BufferHead) : Prop where
  dev : h'.dev = h.dev
  blockNr : h'.blockNr = h.blockNr
  dirt : h'.dirt = h.dirt
  uptodate : h'.uptodate = h.uptodate

section Blocks

variable {s s' : Store} {dev : BitVec 16} {block : BitVec 32} {c : Block} {a b : Addr} {h : BufferHead}

theorem SameBlock.refl (h : BufferHead) : SameBlock h h := ⟨rfl, rfl, rfl, rfl⟩

theorem SameBlock.isFor {h h' : BufferHead} (same : SameBlock h h') : IsFor h' dev block ↔ IsFor h dev block := by
  rw [IsFor, IsFor, same.dev, same.blockNr]

theorem setHead_head : (s.setHead b h).head a = if a = b then h else s.head a := Cache.setHead_heads h

theorem setHead_self : (s.setHead b h).head b = h := setHead_head.trans (if_pos rfl)

theorem setHead_other (other : a ≠ b) : SameBlock (s.head a) ((s.setHead b h).head a) := by
  rw [setHead_head, if_neg other]
  exact .refl _

/-- A change to one buffer, and maybe to the disk. -/
theorem Holds.change (holds : s.Holds dev block c) (b : Addr) (table : s'.cache.nrBuffers = s.cache.nrBuffers)
    (others : ∀ a, a ≠ b → SameBlock (s.head a) (s'.head a) ∧ s'.data a = s.data a)
    (disk : s'.disk dev block = c ∨ s'.disk dev block = s.disk dev block)
    (buffer : s.cache.IsHead b → IsFor (s'.head b) dev block →
      (s'.head b).dirt = true ∨ (s'.head b).uptodate = true → s'.data b = c)
    (stored : s.cache.IsHead b → IsFor (s'.head b) dev block →
      (s'.head b).dirt = false ∨ (s'.head b).uptodate = false → s'.disk dev block = c)
    (gone : s.cache.IsHead b → ¬ IsFor (s'.head b) dev block → IsFor (s.head b) dev block → s'.disk dev block = c) :
    s'.Holds dev block c := by
  have isHead : ∀ a, s'.cache.IsHead a ↔ s.cache.IsHead a := by
    intro a
    simp only [Cache.IsHead, table]
  -- what the disk has for the block may only turn into the contents
  have kept : s.disk dev block = c → s'.disk dev block = c := by
    intro same
    exact disk.elim id fun other => other.trans same
  constructor
  · intro a inside isFor flags
    by_cases here : a = b
    · subst here
      exact buffer ((isHead a).mp inside) isFor flags
    · obtain ⟨same, data⟩ := others a here
      rw [same.isFor] at isFor
      rw [same.dirt, same.uptodate] at flags
      exact data.trans (holds.buffer a ((isHead a).mp inside) isFor flags)
  · intro a inside isFor flags
    by_cases here : a = b
    · subst here
      exact stored ((isHead a).mp inside) isFor flags
    · have same := (others a here).1
      rw [same.isFor] at isFor
      rw [same.dirt, same.uptodate] at flags
      exact kept (holds.disk a ((isHead a).mp inside) isFor flags)
  · intro none
    by_cases left : s.cache.IsHead b ∧ IsFor (s.head b) dev block
    · exact gone left.1 (none b ((isHead b).mpr left.1)) left.2
    · apply kept
      apply holds.absent
      intro a inside isFor
      by_cases here : a = b
      · subst here
        exact left ⟨inside, isFor⟩
      · exact none a ((isHead a).mpr inside) ((others a here).1.isFor.mpr isFor)

theorem Holds.setHead (holds : s.Holds dev block c) (same : SameBlock (s.head b) h) :
    (s.setHead b h).Holds dev block c := by
  refine holds.change b rfl (fun a other => ⟨setHead_other other, rfl⟩) (.inr rfl) ?_ ?_ ?_
  · rw [setHead_self, same.isFor, same.dirt, same.uptodate]
    exact fun inside => holds.buffer b inside
  · rw [setHead_self, same.isFor, same.dirt, same.uptodate]
    exact fun inside => holds.disk b inside
  · rw [setHead_self, same.isFor]
    exact fun _ no yes => absurd yes no

/-- A read brings the contents into the buffer. -/
theorem Holds.readBlock (holds : s.Holds dev block c) (b : Addr) : (s.readBlock b).Holds dev block c := by
  unfold Store.readBlock
  split
  · exact holds
  next old =>
    -- only a buffer that is not up to date is read
    have stale : (s.head b).uptodate = false := by simpa using old
    have here : (s.setHead b { s.head b with uptodate := true }).head b = { s.head b with uptodate := true } :=
      setHead_self
    refine holds.change b rfl (fun a other => ⟨setHead_other other, Function.update_of_ne other ..⟩)
      (.inr rfl) ?_ ?_ ?_
    · intro inside isFor _
      change IsFor ((s.setHead b { s.head b with uptodate := true }).head b) dev block at isFor
      rw [here] at isFor
      change Function.update s.data b _ b = c
      rw [Function.update_self, ← holds.disk b inside isFor (.inr stale), ← isFor.1, ← isFor.2]
    · intro inside isFor _
      change IsFor ((s.setHead b { s.head b with uptodate := true }).head b) dev block at isFor
      rw [here] at isFor
      exact holds.disk b inside isFor (.inr stale)
    · intro _ no yes
      change ¬ IsFor ((s.setHead b { s.head b with uptodate := true }).head b) dev block at no
      rw [here] at no
      exact absurd yes no

/-- A write brings the contents to the disk. -/
theorem Holds.writeBlock (holds : s.Holds dev block c) (isHead : s.cache.IsHead b) :
    (s.writeBlock b).Holds dev block c := by
  unfold Store.writeBlock
  split
  next modified =>
    have here : (s.setHead b { s.head b with dirt := false }).head b = { s.head b with dirt := false } :=
      setHead_self
    -- what is written is what the buffer holds for its block
    have written : ∀ stored : Block, IsFor (s.head b) dev block →
        (if dev = (s.head b).dev ∧ block = (s.head b).blockNr then s.data b else stored) = c := by
      intro stored isFor
      rw [if_pos ⟨isFor.1.symm, isFor.2.symm⟩]
      exact holds.buffer b isHead isFor (.inl modified)
    refine holds.change b rfl (fun a other => ⟨setHead_other other, rfl⟩) ?_ ?_ ?_ ?_
    · by_cases isFor : IsFor (s.head b) dev block
      · exact .inl (written _ isFor)
      · exact .inr (if_neg fun same => isFor ⟨same.1.symm, same.2.symm⟩)
    · intro _ isFor _
      change IsFor ((s.setHead b { s.head b with dirt := false }).head b) dev block at isFor
      rw [here] at isFor
      exact holds.buffer b isHead isFor (.inl modified)
    · intro _ isFor _
      change IsFor ((s.setHead b { s.head b with dirt := false }).head b) dev block at isFor
      rw [here] at isFor
      exact written _ isFor
    · intro _ no yes
      change ¬ IsFor ((s.setHead b { s.head b with dirt := false }).head b) dev block at no
      rw [here] at no
      exact absurd yes no
  next => exact holds

/-- A clean buffer gives up its block, and takes one that no buffer has. -/
theorem Holds.claim (holds : s.Holds dev block c) {cache : Cache} {dev' : BitVec 32} {block' : BitVec 32}
    (claimed : s.cache.claim b dev' block' = some cache) (clean : (s.head b).dirt = false)
    (miss : IsFor (cache.heads b) dev block → ∀ a, s.cache.IsHead a → ¬ IsFor (s.head a) dev block) :
    Holds { s with cache } dev block c := by
  have spec := Cache.claim_spec claimed
  refine holds.change b spec.nrBuffers (fun a other => ?_) (.inr rfl) ?_ ?_ ?_
  · obtain ⟨sameDev, sameBlock, _, dirt, uptodate⟩ := spec.others a other
    exact ⟨⟨sameDev, sameBlock, dirt, uptodate⟩, rfl⟩
  · intro _ _ flags
    change (cache.heads b).dirt = true ∨ (cache.heads b).uptodate = true at flags
    rw [spec.dirt, spec.uptodate] at flags
    simp at flags
  · exact fun _ isFor _ => holds.absent (miss isFor)
  · exact fun isHead _ old => holds.disk b isHead old (.inl clean)

/-- A buffer that has its contents is modified. -/
theorem holds_modified (wellFormed : s.cache.WellFormed) (used : dev ≠ 0) (isHead : s.cache.IsHead b)
    (isFor : IsFor (s.head b) dev block) (uptodate : (s.head b).uptodate = true) (c' : Block) :
    Holds { s.setHead b { s.head b with dirt := true } with data := Function.update s.data b c' } dev block c' := by
  -- no other buffer is for the block
  have alone : ∀ a, s.cache.IsHead a → IsFor (s.head a) dev block → a = b := by
    intro a inside isFor'
    have used' : (s.head b).dev ≠ 0 := by rw [isFor.1]; exact used
    exact wellFormed.identity b a isHead inside used' (isFor'.1.trans isFor.1.symm) (isFor'.2.trans isFor.2.symm)
  have same : ∀ a, IsFor (({ s.setHead b { s.head b with dirt := true } with
      data := Function.update s.data b c' } : Store).head a) dev block ↔ IsFor (s.head a) dev block := by
    intro a
    change IsFor ((s.setHead b { s.head b with dirt := true }).head a) dev block ↔ _
    rw [setHead_head]
    split
    next here => rw [here]; rfl
    next => rfl
  constructor
  · intro a inside isFor' _
    obtain rfl := alone a inside ((same a).mp isFor')
    exact Function.update_self ..
  · intro a inside isFor' flags
    obtain rfl := alone a inside ((same a).mp isFor')
    change ((s.setHead a { s.head a with dirt := true }).head a).dirt = false ∨
      ((s.setHead a { s.head a with dirt := true }).head a).uptodate = false at flags
    rw [setHead_self, uptodate] at flags
    simp at flags
  · intro none
    exact absurd ((same b).mpr isFor) (none b isHead)

/-- The modification of one buffer leaves the other blocks alone. -/
theorem Holds.modify_other (holds : s.Holds dev block c) (other : ¬ IsFor (s.head b) dev block) (c' : Block) :
    Holds { s.setHead b { s.head b with dirt := true } with data := Function.update s.data b c' } dev block c := by
  have here : IsFor ((s.setHead b { s.head b with dirt := true }).head b) dev block ↔ IsFor (s.head b) dev block := by
    rw [setHead_self]
    rfl
  refine holds.change b rfl (fun a other => ⟨setHead_other other, Function.update_of_ne other ..⟩) (.inr rfl) ?_ ?_ ?_
  · exact fun _ isFor => absurd (here.mp isFor) other
  · exact fun _ isFor => absurd (here.mp isFor) other
  · exact fun _ _ isFor => absurd isFor other

end Blocks

/-! ### What the functions keep -/

/-- The cache is well formed, with at least one buffer. -/
structure Valid (s : Store) : Prop where
  wellFormed : s.cache.WellFormed
  nonempty : 0 < s.cache.nrBuffers

/-- A flush changes nothing but the flags of modified buffers and the disk. -/
structure Kept (s s' : Store) : Prop where
  inodes : s'.inodes = s.inodes
  superBlk : s'.superBlk = s.superBlk
  data : s'.data = s.data
  nrBuffers : s'.cache.nrBuffers = s.cache.nrBuffers
  wellFormed : s.cache.WellFormed → s'.cache.WellFormed
  heads : ∀ b, s'.head b = { s.head b with dirt := (s'.head b).dirt }
  cleaner : ∀ b, (s'.head b).dirt = true → (s.head b).dirt = true
  holds : ∀ dev block c, s.Holds dev block c → s'.Holds dev block c

/-- `getblk` has handed out `b` for the block. -/
structure Got (s s' : Store) (dev : BitVec 16) (block : BitVec 32) (b : Addr) : Prop where
  inodes : s'.inodes = s.inodes
  superBlk : s'.superBlk = s.superBlk
  nrBuffers : s'.cache.nrBuffers = s.cache.nrBuffers
  wellFormed : s'.cache.WellFormed
  isHead : s'.cache.IsHead b
  isFor : IsFor (s'.head b) dev block
  count : ∀ a, (s'.head a).count = if a = b then (s.head a).count + 1 else (s.head a).count
  lock : ∀ a, (s'.head a).lock = (s.head a).lock
  cleaner : ∀ a, (s'.head a).dirt = true → (s.head a).dirt = true
  others : ∀ a, a ≠ b ∨ ((s.head a).count ≠ 0 ∧ (s.head a).uptodate = true) →
    (s'.head a).dev = (s.head a).dev ∧ (s'.head a).blockNr = (s.head a).blockNr ∧
      (s'.head a).uptodate = (s.head a).uptodate ∧ s'.data a = s.data a
  holds : ∀ dev block c, dev ≠ 0 → s.Holds dev block c → s'.Holds dev block c

/-- In a valid state with these inodes the nested call only flushes. -/
def Quiet (sync : BitVec 32 → Store → Option Store) (inodes : Nat → MInode) : Prop :=
  ∀ dev s s', s.Valid → s.inodes = inodes → sync dev s = some s' → Kept s s'

section Functions

variable {sync : BitVec 32 → Store → Option Store} {inodes : Nat → MInode} {s s' s₁ : Store} {dev : BitVec 16}
  {block : BitVec 32} {b : Addr} {fuel : Nat}

theorem Kept.refl (s : Store) : Kept s s := ⟨rfl, rfl, rfl, rfl, id, fun _ => rfl, fun _ => id, fun _ _ _ => id⟩

theorem Kept.trans (first : Kept s s₁) (second : Kept s₁ s') : Kept s s' := by
  constructor
  · exact second.inodes.trans first.inodes
  · exact second.superBlk.trans first.superBlk
  · exact second.data.trans first.data
  · exact second.nrBuffers.trans first.nrBuffers
  · exact fun wellFormed => second.wellFormed (first.wellFormed wellFormed)
  · intro b
    rw [second.heads b, first.heads b]
  · exact fun b modified => first.cleaner b (second.cleaner b modified)
  · exact fun dev block c holds => second.holds dev block c (first.holds dev block c holds)

theorem Kept.valid (kept : Kept s s') (valid : s.Valid) : s'.Valid :=
  ⟨kept.wellFormed valid.wellFormed, by rw [kept.nrBuffers]; exact valid.nonempty⟩

theorem Got.valid (got : Got s s' dev block b) (valid : s.Valid) : s'.Valid :=
  ⟨got.wellFormed, by rw [got.nrBuffers]; exact valid.nonempty⟩

theorem Kept.isHead (kept : Kept s s') (a : Addr) : s'.cache.IsHead a ↔ s.cache.IsHead a := by
  simp only [Cache.IsHead, kept.nrBuffers]

theorem Kept.got (kept : Kept s s₁) (got : Got s₁ s' dev block b) : Got s s' dev block b := by
  have flags := kept.heads
  constructor
  · exact got.inodes.trans kept.inodes
  · exact got.superBlk.trans kept.superBlk
  · exact got.nrBuffers.trans kept.nrBuffers
  · exact got.wellFormed
  · exact got.isHead
  · exact got.isFor
  · intro a
    rw [got.count, flags a]
  · intro a
    rw [got.lock, flags a]
  · exact fun a modified => kept.cleaner a (got.cleaner a modified)
  · intro a which
    have same := got.others a
    rw [flags a, kept.data] at same
    exact same which
  · exact fun dev block c used holds => got.holds dev block c used (kept.holds dev block c holds)

theorem kept_writeBlock (isHead : s.cache.IsHead b) : Kept s (s.writeBlock b) := by
  have holds : ∀ dev block c, s.Holds dev block c → (s.writeBlock b).Holds dev block c :=
    fun _ _ _ holds => holds.writeBlock isHead
  unfold writeBlock at holds ⊢
  split
  next modified =>
    rw [if_pos modified] at holds
    have head : ∀ a, (s.setHead b { s.head b with dirt := false }).head a =
        { s.head a with dirt := if a = b then false else (s.head a).dirt } := by
      intro a
      rw [setHead_head]
      split
      next here => rw [here]
      next => rfl
    refine ⟨rfl, rfl, rfl, rfl, ?_, ?_, ?_, holds⟩
    · exact fun wellFormed => wellFormed.setHead ⟨rfl, rfl, rfl, rfl, rfl, rfl⟩
    · intro a
      change (s.setHead b { s.head b with dirt := false }).head a =
        { s.head a with dirt := ((s.setHead b { s.head b with dirt := false }).head a).dirt }
      rw [head]
    · intro a still
      change ((s.setHead b { s.head b with dirt := false }).head a).dirt = true at still
      rw [head] at still
      change (if a = b then false else (s.head a).dirt) = true at still
      split at still
      · cases still
      · exact still
  next => exact .refl s

theorem waitOnBuffer_eq (waited : s.waitOnBuffer b = some s') : s' = s ∧ (s.head b).lock = false := by
  unfold waitOnBuffer at waited
  split at waited
  · cases waited
  next unlocked => exact ⟨(Option.some.inj waited).symm, by simpa using unlocked⟩

/-- A loop of `syncDev` flushes. -/
theorem kept_syncPass {dev : BitVec 32} {l : List Nat} (inside : ∀ i ∈ l, i < s.cache.nrBuffers)
    (done : syncPass dev l s = some s') : Kept s s' := by
  induction l generalizing s with
  | nil =>
    obtain rfl := Option.some.inj done
    exact .refl s
  | cons i l ih =>
    obtain ⟨here, rest⟩ := List.forall_mem_cons.mp inside
    simp only [syncPass] at done
    split at done
    · exact ih rest done
    · obtain ⟨s₁, waited, continued⟩ := Option.bind_eq_some_iff.mp done
      obtain rfl : s = s₁ := (waitOnBuffer_eq waited).1.symm
      -- the wait for an unlocked buffer changes nothing
      have kept : Kept s (if (s.head (headAddr i)).dirt then s.writeBlock (headAddr i) else s) := by
        split
        · exact kept_writeBlock ⟨i, here, rfl⟩
        · exact .refl s
      refine kept.trans (ih (fun j member => ?_) continued)
      rw [kept.nrBuffers]
      exact rest j member

theorem setWidth_inj {d : BitVec 16} (same : d.setWidth 32 = dev.setWidth 32) : d = dev := by
  have narrow := congrArg (BitVec.setWidth 16) same
  rwa [BitVec.setWidth_setWidth_of_le _ (by omega), BitVec.setWidth_setWidth_of_le _ (by omega), BitVec.setWidth_eq,
    BitVec.setWidth_eq] at narrow

/-- One more reference to a buffer of the block. -/
theorem got_count (wellFormed : s.cache.WellFormed) (isHead : s.cache.IsHead b) (isFor : IsFor (s.head b) dev block) :
    Got s (s.setHead b { s.head b with count := (s.head b).count + 1 }) dev block b := by
  have head : ∀ a, (s.setHead b { s.head b with count := (s.head b).count + 1 }).head a =
      { s.head a with count := if a = b then (s.head a).count + 1 else (s.head a).count } := by
    intro a
    rw [setHead_head]
    split
    next here => rw [here]
    next => rfl
  -- the count is no part of what the queues and the contents depend on
  constructor
  · rfl
  · rfl
  · rfl
  · exact wellFormed.setHead ⟨rfl, rfl, rfl, rfl, rfl, rfl⟩
  · exact isHead
  · rw [head]
    exact isFor
  · intro a
    rw [head]
  · intro a
    rw [head]
  · intro a modified
    rw [head] at modified
    exact modified
  · intro a _
    rw [head]
    exact ⟨rfl, rfl, rfl, rfl⟩
  · intro dev block c _ holds
    exact holds.setHead ⟨rfl, rfl, rfl, rfl⟩

/-- `getHashTable` finds the buffer of the block, or there is none. -/
theorem getHashTable_spec {found : Option Addr} (wellFormed : s.cache.WellFormed)
    (done : getHashTable fuel s (dev.setWidth 32) block = some (found, s')) :
    (∃ b, found = some b ∧ Got s s' dev block b) ∨
      found = none ∧ s' = s ∧ s.cache.findBuffer s.searchFuel (dev.setWidth 32) block = some none := by
  cases fuel with
  | zero => cases done
  | succ fuel =>
    obtain ⟨hit, searched, rest⟩ := Option.bind_eq_some_iff.mp done
    cases hit with
    | none =>
      obtain ⟨rfl, rfl⟩ := Prod.mk.inj (Option.some.inj rest)
      exact .inr ⟨rfl, rfl, searched⟩
    | some b =>
      obtain ⟨free, chain, queues⟩ := wellFormed.queues
      obtain ⟨isHead, _, sameDev, sameBlock⟩ := queues.findBuffer_hit searched
      have isFor : IsFor (s.head b) dev block := ⟨setWidth_inj sameDev, sameBlock⟩
      obtain ⟨s₁, waited, result⟩ := Option.bind_eq_some_iff.mp rest
      obtain ⟨rfl, _⟩ := waitOnBuffer_eq waited
      have got := got_count wellFormed isHead isFor
      -- after the wait the buffer is still for the block
      have id : ((s.setHead b { s.head b with count := (s.head b).count + 1 }).head b).dev.setWidth 32 =
          dev.setWidth 32 ∧
          ((s.setHead b { s.head b with count := (s.head b).count + 1 }).head b).blockNr = block := by
        rw [got.isFor.1]
        exact ⟨rfl, got.isFor.2⟩
      rw [if_pos id] at result
      obtain ⟨rfl, rfl⟩ := Prod.mk.inj (Option.some.inj result)
      exact .inl ⟨b, rfl, got⟩

theorem kept_flushVictim {free : Bool} (quiet : Quiet sync s.inodes) (valid : s.Valid)
    (done : flushVictim sync fuel s b = some (free, s')) :
    Kept s s' ∧ (free = true → (s.head b).count = 0 → (s'.head b).dirt = false ∧ (s'.head b).count = 0) := by
  induction fuel generalizing s with
  | zero => cases done
  | succ fuel ih =>
    rw [flushVictim] at done
    split at done
    next modified =>
      obtain ⟨s₁, flushed, after⟩ := Option.bind_eq_some_iff.mp done
      obtain ⟨s₂, waited, result⟩ := Option.bind_eq_some_iff.mp after
      obtain ⟨rfl, _⟩ := waitOnBuffer_eq waited
      have kept := quiet _ _ _ valid rfl flushed
      -- a buffer that somebody has taken meanwhile is given up, else the loop goes round
      split at result
      · obtain ⟨rfl, rfl⟩ := Prod.mk.inj (Option.some.inj result)
        exact ⟨kept, fun no => absurd no (by decide)⟩
      next unused =>
        obtain ⟨later, clean⟩ := ih (by rw [kept.inodes]; exact quiet) (kept.valid valid) result
        exact ⟨kept.trans later, fun yes _ => clean yes (not_not.mp unused)⟩
    next clean =>
      obtain ⟨rfl, rfl⟩ := Prod.mk.inj (Option.some.inj done)
      exact ⟨.refl s, fun _ unused => ⟨by simpa using clean, unused⟩⟩

/-- The victim, flushed and free, takes the block that no buffer has. -/
theorem got_claim {cache : Cache} (wellFormed : s.cache.WellFormed) (isHead : s.cache.IsHead b)
    (unused : (s.head b).count = 0) (clean : (s.head b).dirt = false) (used : dev ≠ 0)
    (absent : s.cache.findBuffer s.searchFuel (dev.setWidth 32) block = some none)
    (claimed : s.cache.claim b (dev.setWidth 32) block = some cache) : Got s { s with cache } dev block b := by
  have spec := Cache.claim_spec claimed
  obtain ⟨free, chain, queues⟩ := wellFormed.queues
  have whole : (dev.setWidth 32).setWidth 16 = dev := by
    rw [BitVec.setWidth_setWidth_of_le _ (by omega), BitVec.setWidth_eq]
  -- the search failed, and it finds every buffer of the block
  have miss : ∀ a, s.cache.IsHead a → (s.head a).dev ≠ 0 → ¬ IsFor (s.head a) dev block := by
    intro a inside used isFor
    apply queues.findBuffer_miss absent inside used
    change (s.head a).dev.setWidth 32 = dev.setWidth 32 ∧ (s.head a).blockNr = block
    rw [isFor.1]
    exact ⟨rfl, isFor.2⟩
  constructor
  · rfl
  · rfl
  · exact spec.nrBuffers
  · exact wellFormed.claim isHead claimed miss
  · obtain ⟨i, small, place⟩ := isHead
    exact ⟨i, by rw [spec.nrBuffers]; exact small, place⟩
  · exact ⟨spec.dev.trans whole, spec.blockNr⟩
  · intro a
    split
    next here =>
      subst here
      rw [unused]
      exact spec.count
    next other => exact (spec.others a other).2.2.1
  · exact spec.lock
  · intro a modified
    by_cases here : a = b
    · subst here
      exact absurd (spec.dirt.symm.trans modified) (by decide)
    · exact ((spec.others a here).2.2.2.1).symm.trans modified
  · intro a which
    have other : a ≠ b := by
      rintro rfl
      rcases which with other | held
      · exact other rfl
      · exact held.1 unused
    obtain ⟨sameDev, sameBlock, _, _, uptodate⟩ := spec.others a other
    exact ⟨sameDev, sameBlock, uptodate, rfl⟩
  · -- the buffer leaves its old block, which the disk has, for one that no buffer had
    intro dev' block' c used' holds
    refine holds.claim claimed clean fun isFor a inside isFor' => ?_
    have sameDev : dev' = dev := by rw [← isFor.1, spec.dev, whole]
    have sameBlock : block' = block := by rw [← isFor.2, spec.blockNr]
    subst sameDev sameBlock
    exact miss a inside (by rw [isFor'.1]; exact used) isFor'

/-- `getblk`, where the nested calls of `syncDev` only flush. -/
theorem getblkWith_got (quiet : Quiet sync s.inodes) (valid : s.Valid) (used : dev ≠ 0)
    (done : getblkWith sync fuel s (dev.setWidth 32) block = some (b, s')) : Got s s' dev block b := by
  -- each `goto` of the source is a recursive call on less fuel
  induction fuel generalizing s with
  | zero => cases done
  | succ fuel ih =>
    obtain ⟨⟨found, s₁⟩, looked, decided⟩ := Option.bind_eq_some_iff.mp done
    rcases getHashTable_spec valid.wellFormed looked with ⟨b', rfl, got⟩ | ⟨rfl, rfl, absent⟩
    · obtain ⟨rfl, rfl⟩ := Prod.mk.inj (Option.some.inj decided)
      exact got
    · obtain ⟨best, scanned, chosen⟩ := Option.bind_eq_some_iff.mp decided
      obtain ⟨v, rfl, waits⟩ := Option.bind_eq_some_iff.mp chosen
      obtain ⟨s₂, waited, tested⟩ := Option.bind_eq_some_iff.mp waits
      obtain ⟨rfl, _⟩ := waitOnBuffer_eq waited
      obtain ⟨free, chain, queues⟩ := valid.wellFormed.queues
      obtain ⟨isHead, unused⟩ := queues.victim_mem ⟨headAddr 0, 0, valid.nonempty, rfl⟩ scanned
      rw [if_neg (show ¬ (s₂.head v).count ≠ 0 from not_not.mpr unused)] at tested
      obtain ⟨⟨still, s₃⟩, flushed, ended⟩ := Option.bind_eq_some_iff.mp tested
      obtain ⟨kept, clean⟩ := kept_flushVictim quiet valid flushed
      -- every restart keeps contents, so the final round speaks about the first state
      have again : getblkWith sync fuel s₃ (dev.setWidth 32) block = some (b, s') → Got s₂ s' dev block b := by
        intro repeated
        refine kept.got (ih ?_ (kept.valid valid) repeated)
        rw [kept.inodes]
        exact quiet
      cases still with
      | false => exact again ended
      | true =>
        obtain ⟨unmodified, unused'⟩ := clean rfl unused
        obtain ⟨hit, searched, last⟩ := Option.bind_eq_some_iff.mp ended
        cases hit with
        | some _ => exact again last
        | none =>
          obtain ⟨cache, claimed, result⟩ := Option.bind_eq_some_iff.mp last
          obtain ⟨rfl, rfl⟩ := Prod.mk.inj (Option.some.inj result)
          exact kept.got (got_claim (kept.valid valid).wellFormed ((kept.isHead v).mpr isHead) unused' unmodified used
            searched claimed)

/-- What the reads of `bread` keep. -/
theorem Got.readBlock (got : Got s s' dev block b) : Got s (s'.readBlock b) dev block b := by
  unfold Store.readBlock
  split
  · exact got
  -- a buffer that is not up to date takes what the disk has
  next stale =>
    have head : ∀ a, (s'.setHead b { s'.head b with uptodate := true }).head a =
        { s'.head a with uptodate := if a = b then true else (s'.head a).uptodate } := by
      intro a
      rw [setHead_head]
      split
      next here => rw [here]
      next => rfl
    constructor
    · exact got.inodes
    · exact got.superBlk
    · exact got.nrBuffers
    · exact got.wellFormed.setHead ⟨rfl, rfl, rfl, rfl, rfl, rfl⟩
    · exact got.isHead
    · change IsFor ((s'.setHead b { s'.head b with uptodate := true }).head b) dev block
      rw [head]
      exact got.isFor
    · intro a
      change ((s'.setHead b { s'.head b with uptodate := true }).head a).count = _
      rw [head]
      exact got.count a
    · intro a
      change ((s'.setHead b { s'.head b with uptodate := true }).head a).lock = _
      rw [head]
      exact got.lock a
    · intro a modified
      change ((s'.setHead b { s'.head b with uptodate := true }).head a).dirt = true at modified
      rw [head] at modified
      exact got.cleaner a modified
    · intro a which
      have same := got.others a which
      have other : a ≠ b := by
        rintro rfl
        rcases which with other | held
        · exact other rfl
        · exact stale (same.2.2.1.trans held.2)
      change ((s'.setHead b { s'.head b with uptodate := true }).head a).dev = _ ∧
        ((s'.setHead b { s'.head b with uptodate := true }).head a).blockNr = _ ∧
        ((s'.setHead b { s'.head b with uptodate := true }).head a).uptodate = _ ∧ Function.update s'.data b _ a = _
      rw [head, if_neg other, Function.update_of_ne other]
      exact same
    · intro dev block c used holds
      have read := (got.holds dev block c used holds).readBlock b
      rw [Store.readBlock, if_neg stale] at read
      exact read

theorem uptodate_readBlock (s : Store) (b : Addr) : ((s.readBlock b).head b).uptodate = true := by
  unfold Store.readBlock
  split
  next already => exact already
  next =>
    change ((s.setHead b { s.head b with uptodate := true }).head b).uptodate = true
    rw [setHead_self]

/-- `bread` never returns NULL, and the buffer has the contents of its block. -/
theorem breadWith_got {result : Option Addr} (quiet : Quiet sync s.inodes) (valid : s.Valid) (used : dev ≠ 0)
    (done : breadWith sync fuel s (dev.setWidth 32) block = some (result, s')) :
    ∃ b, result = some b ∧ Got s s' dev block b ∧ (s'.head b).uptodate = true := by
  obtain ⟨⟨b, s₁⟩, taken, decided⟩ := Option.bind_eq_some_iff.mp done
  have got := getblkWith_got quiet valid used taken
  simp only at decided
  split at decided
  next already =>
    obtain ⟨rfl, rfl⟩ := Prod.mk.inj (Option.some.inj decided)
    exact ⟨b, rfl, got, already⟩
  next =>
    obtain ⟨s₂, waited, result⟩ := Option.bind_eq_some_iff.mp decided
    obtain ⟨rfl, _⟩ := waitOnBuffer_eq waited
    have read := uptodate_readBlock s₁ b
    rw [if_pos read] at result
    obtain ⟨rfl, rfl⟩ := Prod.mk.inj (Option.some.inj result)
    exact ⟨b, rfl, got.readBlock, read⟩

/-- Where the block holds `c`, the buffer has it. -/
theorem Holds.data {c : Block} (holds : s.Holds dev block c) (isHead : s.cache.IsHead b)
    (isFor : IsFor (s.head b) dev block) (uptodate : (s.head b).uptodate = true) : s.data b = c :=
  holds.buffer b isHead isFor (.inr uptodate)

end Functions

end Store

end OperatorSystem.Fs
