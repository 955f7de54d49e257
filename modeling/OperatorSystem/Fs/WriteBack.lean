import OperatorSystem.Fs.InodeLocks
import OperatorSystem.Fs.Store

/-!
# Writing back inodes and buffers (`inode.c`, `buffer.c`)

`writeInode` changes one record of one block. It keeps the inode locked while it
reads the block, so a nested `syncDev` comes to this inode and waits for ever:
where `writeInode` comes back, no buffer had to be flushed for it. `syncDev`
therefore writes all buffers of the device, then the inodes into buffers, and
then the buffers modified by that.
-/

namespace OperatorSystem.Fs.Store

section WriteInode

variable {sync : BitVec 32 → Store → Option Store} {s s' : Store} {dev : BitVec 16} {block : BitVec 32} {c : Block}
  {b : Addr} {fuel i : Nat}

/-- The contents of the blocks do not depend on the inodes. -/
theorem Holds.setInode (holds : s.Holds dev block c) (i : Nat) (inode : MInode) :
    (s.setInode i inode).Holds dev block c := ⟨holds.buffer, holds.disk, holds.absent⟩

theorem brelse_eq (released : s.brelse b = some s') :
    s' = s.setHead b { s.head b with count := (s.head b).count - 1 } := by
  obtain ⟨s₁, waited, rest⟩ := Option.bind_eq_some_iff.mp released
  obtain ⟨rfl, _⟩ := waitOnBuffer_eq waited
  split at rest
  · cases rest
  · exact (Option.some.inj rest).symm

/-- `writeInode` has written the inode `i` into the buffer `b`. -/
structure Wrote (s s' : Store) (i : Nat) : Prop where
  superBlk : s'.superBlk = s.superBlk
  valid : s'.Valid
  nrBuffers : s'.cache.nrBuffers = s.cache.nrBuffers
  inodes : s'.inodes = Function.update s.inodes i { s.inodes i with dirt := false }
  buffer : ∃ sb b, s.superBlk (s.inodes i).dev = some sb ∧ s'.cache.IsHead b ∧
    IsFor (s'.head b) (s.inodes i).dev (World.inodeBlock sb (s.inodes i).num) ∧ (s'.head b).dirt = true
  holds : ∀ dev block blocks, dev ≠ 0 → s.Holds dev block (blocks dev block) →
    s'.Holds dev block (writeRecord s.superBlk blocks (s.inodes i) dev block)

theorem storeRecord_head (a : Addr) : (s.storeRecord i b).head a =
    { s.head a with dirt := if a = b then true else (s.head a).dirt } := by
  change (s.setHead b { s.head b with dirt := true }).head a = _
  rw [setHead_head]
  split
  next here => rw [here]
  next => rfl

/-- The buffer of a block takes the record. -/
theorem Holds.storeRecord {dev' : BitVec 16} {block' : BitVec 32} (holds : s.Holds dev' block' c) (used : dev' ≠ 0)
    (valid : s.Valid) (isHead : s.cache.IsHead b) (isFor : IsFor (s.head b) dev block)
    (uptodate : (s.head b).uptodate = true) : (s.storeRecord i b).Holds dev' block'
      (if dev' = dev ∧ block' = block then c.setRecord (slotOf (s.inodes i).num) (s.inodes i).byteAt else c) := by
  split
  next here =>
    obtain ⟨rfl, rfl⟩ := here
    rw [← holds.data isHead isFor uptodate]
    exact holds_modified valid.wellFormed used isHead isFor uptodate _
  next other =>
    apply holds.modify_other
    rintro ⟨sameDev, sameBlock⟩
    exact other ⟨sameDev.symm.trans isFor.1, sameBlock.symm.trans isFor.2⟩

/-- `writeInode` comes back only for an inode that was not locked. It does nothing
for a clean inode, or one without a device. -/
theorem writeInodeWith_spec (quiet : Quiet sync (Function.update s.inodes i { s.inodes i with lock := true }))
    (valid : s.Valid) (done : writeInodeWith sync fuel s i = some s') :
    (s.inodes i).lock = false ∧
      if (s.inodes i).dirt = true ∧ (s.inodes i).dev ≠ 0 then Wrote s s' i else s' = s := by
  unfold writeInodeWith at done
  split at done
  · cases done
  next unlocked =>
    have open' : (s.inodes i).lock = false := by simpa using unlocked
    have here : (s.setInode i { s.inodes i with lock := true }).inodes i = { s.inodes i with lock := true } :=
      Function.update_self ..
    refine ⟨open', ?_⟩
    simp only [here] at done
    split at done
    -- nothing to write: the lock is taken and given back
    next skipped =>
      have idle : ¬ ((s.inodes i).dirt = true ∧ (s.inodes i).dev ≠ 0) := by
        rintro ⟨modified, used⟩
        rcases skipped with clean | none
        · exact clean modified
        · exact used none
      rw [if_neg idle, ← Option.some.inj done]
      have restored : ({ s.inodes i with lock := false } : MInode) = s.inodes i := by
        rw [← open']
      simp only [Store.setInode, Function.update_idem, restored, Function.update_eq_self]
    -- the block of the inode is read, the record replaced, and the buffer marked
    next writes =>
      obtain ⟨modified, used⟩ : (s.inodes i).dirt = true ∧ (s.inodes i).dev ≠ 0 := by
        simpa only [not_or, not_not] using writes
      rw [if_pos ⟨modified, used⟩]
      obtain ⟨sb, found, reads⟩ := Option.bind_eq_some_iff.mp done
      have found : s.superBlk (s.inodes i).dev = some sb := found
      obtain ⟨⟨bh, s₁⟩, read, stores⟩ := Option.bind_eq_some_iff.mp reads
      obtain ⟨b, handed, released⟩ := Option.bind_eq_some_iff.mp stores
      obtain ⟨s₂, brelsed, result⟩ := Option.bind_eq_some_iff.mp released
      obtain rfl := brelse_eq brelsed
      obtain rfl := Option.some.inj result
      have locked : (s.setInode i { s.inodes i with lock := true }).Valid := ⟨valid.wellFormed, valid.nonempty⟩
      obtain ⟨b', rfl, got, uptodate⟩ := breadWith_got quiet locked used read
      obtain rfl : b' = b := Option.some.inj handed
      have inode : s₁.inodes i = { s.inodes i with lock := true } := by
        rw [got.inodes]
        exact here
      have name : (s₁.inodes i).num = (s.inodes i).num ∧ (s₁.inodes i).byteAt = (s.inodes i).byteAt := by
        rw [inode]
        exact ⟨rfl, rfl⟩
      constructor
      · exact got.superBlk
      · refine ⟨?_, (got.valid locked).nonempty⟩
        apply Cache.WellFormed.setHead
        · exact got.wellFormed.setHead ⟨rfl, rfl, rfl, rfl, rfl, rfl⟩
        · exact ⟨rfl, rfl, rfl, rfl, rfl, rfl⟩
      · exact got.nrBuffers
      · have kept : s₁.inodes = Function.update s.inodes i { s.inodes i with lock := true } := got.inodes
        change Function.update (Function.update s₁.inodes i _) i _ = _
        rw [Function.update_idem, kept, Function.update_idem]
        congr 1
        change ({ (Function.update s₁.inodes i { s₁.inodes i with dirt := false }) i with lock := false } : MInode) = _
        rw [Function.update_self, inode, ← open']
      · have flags := storeRecord_head (s := s₁) (i := i) (b := b') b'
        rw [if_pos rfl] at flags
        have final : ∀ s₂ : Store, s₂.head b' = { s₁.head b' with dirt := true } →
            IsFor ((s₂.setHead b' { s₂.head b' with count := (s₂.head b').count - 1 }).head b') (s.inodes i).dev
              (World.inodeBlock sb (s.inodes i).num) ∧
            ((s₂.setHead b' { s₂.head b' with count := (s₂.head b').count - 1 }).head b').dirt = true := by
          intro s₂ same
          rw [setHead_self, same]
          exact ⟨got.isFor, rfl⟩
        exact ⟨sb, b', found, got.isHead, final _ flags⟩
      · intro dev block blocks used' holds
        have read := got.holds dev block _ used' (holds.setInode i { s.inodes i with lock := true })
        have stored := read.storeRecord (i := i) used' (got.valid locked) got.isHead got.isFor uptodate
        rw [name.1, name.2] at stored
        rw [writeRecord_apply found]
        refine ((stored.setInode i _).setHead ?_).setInode i _
        exact ⟨rfl, rfl, rfl, rfl⟩

end WriteInode

/-! ### The inodes -/

/-- The blocks after the write-back of the dirty inodes of a list, pipes apart. -/
def writtenBack (s : Store) (l : List Nat) (blocks : Blocks) : Blocks :=
  l.foldl (fun blocks i =>
    if (s.inodes i).dirt ∧ ¬ (s.inodes i).pipe ∧ (s.inodes i).dev ≠ 0 then
      writeRecord s.superBlk blocks (s.inodes i)
    else blocks) blocks

/-- What `syncInodes` makes of a store. -/
structure Synced (s s' : Store) (l : List Nat) : Prop where
  valid : s'.Valid
  nrBuffers : s'.cache.nrBuffers = s.cache.nrBuffers
  superBlk : s'.superBlk = s.superBlk
  inodes : ∀ i, s'.inodes i = { s.inodes i with dirt := (s'.inodes i).dirt }
  clean : ∀ i ∈ l, (s.inodes i).dev ≠ 0 → (s.inodes i).pipe = false → (s'.inodes i).dirt = false
  untouched : ∀ i, i ∉ l → s'.inodes i = s.inodes i
  holds : ∀ dev block blocks, dev ≠ 0 → s.Holds dev block (blocks dev block) →
    s'.Holds dev block (s.writtenBack l blocks dev block)

/-- The nested call does not come back while an inode is locked. -/
def Stuck (sync : BitVec 32 → Store → Option Store) : Prop :=
  ∀ dev s, s.Valid → (∃ k < nrInode, (s.inodes k).lock = true) → sync dev s = none

section Nested

variable {sync : BitVec 32 → Store → Option Store} {s s' : Store} {fuel i : Nat} {l : List Nat}

theorem Stuck.quiet (stuck : Stuck sync) (inside : i < nrInode) (inodes : Nat → MInode) :
    Quiet sync (Function.update inodes i { inodes i with lock := true }) := by
  intro dev s₁ s₂ valid same done
  have locked : (s₁.inodes i).lock = true := by rw [same, Function.update_self]
  rw [stuck dev s₁ valid ⟨i, inside, locked⟩] at done
  cases done

/-- `syncInodes` waits for ever for a locked inode. -/
theorem syncInodesWith_stuck (stuck : Stuck sync) (inside : ∀ i ∈ l, i < nrInode) {k : Nat} (member : k ∈ l)
    (valid : s.Valid) (locked : (s.inodes k).lock = true) : syncInodesWith sync fuel l s = none := by
  induction l generalizing s with
  | nil => cases member
  | cons i l ih =>
    obtain ⟨small, rest⟩ := List.forall_mem_cons.mp inside
    rw [syncInodesWith]
    split
    · rfl
    next unlocked =>
      -- the loop has passed the inode, so it was not the locked one
      have other : k ≠ i := by
        rintro rfl
        exact unlocked locked
      have later : k ∈ l := (List.mem_cons.mp member).resolve_left other
      split
      next =>
        cases written : writeInodeWith sync fuel s i with
        | none => rfl
        | some s₁ =>
          obtain ⟨_, effect⟩ := writeInodeWith_spec (stuck.quiet small s.inodes) valid written
          split at effect
          · refine ih rest later effect.valid ?_
            rw [effect.inodes, Function.update_of_ne other]
            exact locked
          · subst effect
            exact ih rest later valid locked
      next => exact ih rest later valid locked

theorem syncDev_stuck (fuel : Nat) : Stuck (syncDev fuel) := by
  induction fuel with
  | zero => exact fun _ _ _ _ => rfl
  | succ fuel ih =>
    rintro dev s valid ⟨k, small, locked⟩
    rw [syncDev]
    cases flushed : syncPass dev (List.range s.cache.nrBuffers) s with
    | none => rfl
    | some s₁ =>
      have kept := kept_syncPass (fun i member => List.mem_range.mp member) flushed
      have waits : syncInodesWith (syncDev fuel) fuel (List.range nrInode) s₁ = none := by
        apply syncInodesWith_stuck ih (fun i member => List.mem_range.mp member) (List.mem_range.mpr small)
          (kept.valid valid)
        rw [kept.inodes]
        exact locked
      simp only [Option.bind_eq_bind, Option.bind_some, waits, Option.bind_none]

theorem writtenBack_congr {s₁ : Store} (table : s₁.superBlk = s.superBlk)
    (same : ∀ i ∈ l, s₁.inodes i = s.inodes i) (blocks : Blocks) :
    s₁.writtenBack l blocks = s.writtenBack l blocks := by
  induction l generalizing blocks with
  | nil => rfl
  | cons i l ih =>
    obtain ⟨here, rest⟩ := List.forall_mem_cons.mp same
    simp only [writtenBack, List.foldl_cons, here, table] at ih ⊢
    exact ih rest _

/-- One inode before the others. -/
theorem Synced.cons {s₁ : Store} (synced : Synced s₁ s' l) (fresh : i ∉ l)
    (nrBuffers : s₁.cache.nrBuffers = s.cache.nrBuffers)
    (superBlk : s₁.superBlk = s.superBlk)
    (inode : s₁.inodes = s.inodes ∧ ((s.inodes i).dev ≠ 0 → (s.inodes i).pipe = false → (s.inodes i).dirt = false) ∨
      s₁.inodes = Function.update s.inodes i { s.inodes i with dirt := false })
    (holds : ∀ dev block blocks, dev ≠ 0 → s.Holds dev block (blocks dev block) → s₁.Holds dev block
      ((if (s.inodes i).dirt ∧ ¬ (s.inodes i).pipe ∧ (s.inodes i).dev ≠ 0 then
        writeRecord s.superBlk blocks (s.inodes i) else blocks) dev block)) : Synced s s' (i :: l) := by
  -- the first inode is not in the rest of the list, so the rest does not touch it
  have others : ∀ j, j ≠ i → s₁.inodes j = s.inodes j := by
    intro j other
    rcases inode with ⟨same, _⟩ | updated
    · rw [same]
    · rw [updated, Function.update_of_ne other]
  have here : s₁.inodes i = { s.inodes i with dirt := (s₁.inodes i).dirt } := by
    rcases inode with ⟨same, _⟩ | updated
    · rw [same]
    · rw [updated, Function.update_self]
  constructor
  · exact synced.valid
  · exact synced.nrBuffers.trans nrBuffers
  · exact synced.superBlk.trans superBlk
  · intro j
    rw [synced.inodes j]
    by_cases same : j = i
    · rw [same, here]
    · rw [others j same]
  · intro j member used plain
    rcases List.mem_cons.mp member with rfl | later
    · rw [synced.untouched j fresh]
      rcases inode with ⟨same, clean⟩ | updated
      · rw [same]
        exact clean used plain
      · rw [updated, Function.update_self]
    · have other : j ≠ i := by
        rintro rfl
        exact fresh later
      rw [← others j other] at used plain
      exact synced.clean j later used plain
  · intro j outside
    obtain ⟨other, later⟩ := List.ne_and_not_mem_of_not_mem_cons outside
    rw [synced.untouched j later, others j other]
  · -- the records are written in the order of the list
    intro dev block blocks used before
    have after := synced.holds dev block _ used (holds dev block blocks used before)
    rw [writtenBack_congr superBlk fun j member => others j fun same => fresh (same ▸ member)] at after
    exact after

theorem syncInodesWith_spec (stuck : Stuck sync) (inside : ∀ i ∈ l, i < nrInode) (single : l.Nodup) (valid : s.Valid)
    (done : syncInodesWith sync fuel l s = some s') : Synced s s' l := by
  -- the induction is on the part of the table that is left
  induction l generalizing s with
  | nil =>
    obtain rfl := Option.some.inj done
    exact ⟨valid, rfl, rfl, fun _ => rfl, by simp, fun _ _ => rfl, fun _ _ _ _ holds => holds⟩
  | cons i l ih =>
    obtain ⟨small, rest⟩ := List.forall_mem_cons.mp inside
    obtain ⟨fresh, singles⟩ := List.nodup_cons.mp single
    rw [syncInodesWith] at done
    split at done
    · cases done
    · split at done
      next writes =>
        obtain ⟨s₁, written, continued⟩ := Option.bind_eq_some_iff.mp done
        obtain ⟨_, effect⟩ := writeInodeWith_spec (stuck.quiet small s.inodes) valid written
        split at effect
        next wrote =>
          refine (ih rest singles effect.valid continued).cons fresh effect.nrBuffers effect.superBlk
            (.inr effect.inodes) fun dev block blocks used holds => ?_
          rw [if_pos ⟨writes.1, writes.2, wrote.2⟩]
          exact effect.holds dev block blocks used holds
        next idle =>
          subst effect
          refine (ih rest singles valid continued).cons fresh rfl rfl (.inl ⟨rfl, ?_⟩)
            fun dev block blocks used holds => ?_
          · exact fun used _ => absurd ⟨writes.1, used⟩ idle
          · rw [if_neg fun all => idle ⟨all.1, all.2.2⟩]
            exact holds
      -- clean, a pipe or without a device: the source does not call `write_inode`
      next skips =>
        refine (ih rest singles valid done).cons fresh rfl rfl (.inl ⟨rfl, ?_⟩) fun dev block blocks used holds => ?_
        · intro _ plain
          by_contra modified
          exact skips ⟨by simpa using modified, by simp [plain]⟩
        · rw [if_neg fun all => skips ⟨all.1, all.2.1⟩]
          exact holds

end Nested

/-! ### The buffers -/

section Passes

variable {s s' : Store} {dev : BitVec 16} {block : BitVec 32} {c : Block} {b : Addr} {fuel : Nat} {l : List Nat}

theorem writeBlock_clean (s : Store) (b : Addr) : ((s.writeBlock b).head b).dirt = false := by
  unfold writeBlock
  split
  next =>
    change ((s.setHead b { s.head b with dirt := false }).head b).dirt = false
    rw [setHead_self]
  next clean => simpa using clean

theorem writeBlock_other {a : Addr} (other : a ≠ b) : (s.writeBlock b).head a = s.head a := by
  unfold writeBlock
  split
  · exact setHead_head.trans (if_neg other)
  · rfl

/-- A modified buffer of a device is on the disk after its write. -/
theorem holds_written (valid : s.Valid) (isHead : s.cache.IsHead b) (used : (s.head b).dev ≠ 0)
    (modified : (s.head b).dirt = true) :
    (s.writeBlock b).Holds (s.head b).dev (s.head b).blockNr (s.data b) := by
  have kept := kept_writeBlock isHead
  have stored : (s.writeBlock b).disk (s.head b).dev (s.head b).blockNr = s.data b := by
    rw [writeBlock, if_pos modified]
    exact if_pos ⟨rfl, rfl⟩
  refine ⟨fun a inside isFor _ => ?_, fun _ _ _ _ => stored, fun _ => stored⟩
  rw [kept.heads a] at isFor
  obtain rfl : a = b := valid.wellFormed.identity b a isHead ((kept.isHead a).mp inside) used isFor.1 isFor.2
  rw [kept.data]

theorem writeBlock_eq (s : Store) (b : Addr) : (if (s.head b).dirt then s.writeBlock b else s) = s.writeBlock b := by
  split
  · rfl
  next clean => rw [writeBlock, if_neg clean]

/-- A loop of `syncDev` skips a buffer or writes it. -/
theorem syncPass_cons {dev : BitVec 32} {i : Nat} (done : syncPass dev (i :: l) s = some s') :
    (s.head (headAddr i)).dev.setWidth 32 ≠ dev ∧ syncPass dev l s = some s' ∨
      (s.head (headAddr i)).dev.setWidth 32 = dev ∧ syncPass dev l (s.writeBlock (headAddr i)) = some s' := by
  simp only [syncPass] at done
  split at done
  next other => exact .inl ⟨other, done⟩
  next same =>
    obtain ⟨s₁, waited, continued⟩ := Option.bind_eq_some_iff.mp done
    obtain ⟨rfl, _⟩ := waitOnBuffer_eq waited
    rw [writeBlock_eq] at continued
    exact .inr ⟨not_not.mp same, continued⟩

/-- A loop of `syncDev` leaves the buffers of the device that it has passed clean. -/
theorem syncPass_clean {dev : BitVec 32} (inside : ∀ i ∈ l, i < s.cache.nrBuffers)
    (done : syncPass dev l s = some s') :
    ∀ i ∈ l, (s.head (headAddr i)).dev.setWidth 32 = dev → (s'.head (headAddr i)).dirt = false := by
  induction l generalizing s with
  | nil => simp
  | cons i l ih =>
    obtain ⟨here, rest⟩ := List.forall_mem_cons.mp inside
    intro j member same
    rcases syncPass_cons done with ⟨other, continued⟩ | ⟨_, continued⟩
    · rcases List.mem_cons.mp member with rfl | later
      · exact absurd same other
      · exact ih rest continued j later same
    · have kept := kept_writeBlock ⟨i, here, rfl⟩
      have rest' : ∀ j ∈ l, j < (s.writeBlock (headAddr i)).cache.nrBuffers := by
        rw [kept.nrBuffers]
        exact rest
      rcases List.mem_cons.mp member with rfl | later
      · by_contra modified
        -- the later rounds make no buffer dirty
        have before := (kept_syncPass rest' continued).cleaner _ (by simpa using modified)
        rw [writeBlock_clean] at before
        cases before
      · apply ih rest' continued j later
        rw [kept.heads]
        exact same

/-- The modified buffers that the loop has passed are on the disk. -/
theorem syncPass_flushed (valid : s.Valid) (used : dev ≠ 0) (inside : ∀ i ∈ l, i < s.cache.nrBuffers)
    (done : syncPass (dev.setWidth 32) l s = some s') :
    ∀ i ∈ l, (s.head (headAddr i)).dev = dev → (s.head (headAddr i)).dirt = true →
      s'.Holds dev (s.head (headAddr i)).blockNr (s.data (headAddr i)) := by
  induction l generalizing s with
  | nil => simp
  | cons i l ih =>
    obtain ⟨here, rest⟩ := List.forall_mem_cons.mp inside
    have isHead : s.cache.IsHead (headAddr i) := ⟨i, here, rfl⟩
    intro j member same modified
    rcases syncPass_cons done with ⟨other, continued⟩ | ⟨_, continued⟩
    · rcases List.mem_cons.mp member with rfl | later
      · rw [same] at other
        exact absurd rfl other
      · exact ih valid rest continued j later same modified
    · have kept := kept_writeBlock isHead
      have rest' : ∀ j ∈ l, j < (s.writeBlock (headAddr i)).cache.nrBuffers := by
        rw [kept.nrBuffers]
        exact rest
      by_cases now : headAddr j = headAddr i
      · -- the buffer has just been written, and the rest of the loop keeps its block
        rw [now] at same modified ⊢
        have holds := holds_written valid isHead (by rw [same]; exact used) modified
        rw [same] at holds
        exact (kept_syncPass rest' continued).holds _ _ _ holds
      · have later : j ∈ l := (List.mem_cons.mp member).resolve_left fun equal => now (by rw [equal])
        have holds := ih (kept.valid valid) rest' continued j later
        rw [writeBlock_other now, kept.data] at holds
        exact holds same modified

/-- When `syncDev` comes back, the buffers and the inodes of the device are clean,
and a buffer that was modified at its call is on the disk with the contents it had
then, up to the records of the inodes written back meanwhile. -/
theorem syncDev_flushed {fuel : Nat} {s s' : Store} {dev : BitVec 16} (valid : s.Valid) (used : dev ≠ 0)
    (done : syncDev fuel (dev.setWidth 32) s = some s') :
    (∀ b, s'.cache.IsHead b → (s'.head b).dev = dev → (s'.head b).dirt = false) ∧
    (∀ i < nrInode, (s'.inodes i).dev = dev → (s'.inodes i).pipe = false → (s'.inodes i).dirt = false) ∧
    ∀ b, s.cache.IsHead b → (s.head b).dev = dev → (s.head b).dirt = true →
      s'.disk dev (s.head b).blockNr =
        s.writtenBack (List.range nrInode) (fun _ _ => s.data b) dev (s.head b).blockNr := by
  cases fuel with
  | zero => cases done
  | succ fuel =>
    obtain ⟨s₁, first, more⟩ := Option.bind_eq_some_iff.mp done
    obtain ⟨s₂, inodes, second⟩ := Option.bind_eq_some_iff.mp more
    have inside : ∀ i ∈ List.range s.cache.nrBuffers, i < s.cache.nrBuffers := fun i => List.mem_range.mp
    -- three passes: the buffers, the inodes into buffers, the buffers once more
    have kept₁ := kept_syncPass inside first
    have synced := syncInodesWith_spec (syncDev_stuck fuel) (fun i => List.mem_range.mp) List.nodup_range
      (kept₁.valid valid) inodes
    have inside' : ∀ i ∈ List.range s₂.cache.nrBuffers, i < s₂.cache.nrBuffers := fun i => List.mem_range.mp
    have kept₂ := kept_syncPass inside' second
    -- what the inodes modified is written by the last pass
    have clean : ∀ b, s'.cache.IsHead b → (s'.head b).dev = dev → (s'.head b).dirt = false := by
      intro b isHead same
      obtain ⟨i, small, rfl⟩ := (kept₂.isHead b).mp isHead
      rw [kept₂.heads] at same
      exact syncPass_clean inside' second i (List.mem_range.mpr small) (by rw [same])
    refine ⟨clean, ?_, ?_⟩
    · intro i small same plain
      have kind := synced.inodes i
      rw [kept₂.inodes] at same plain ⊢
      rw [kind] at same plain
      apply synced.clean i (List.mem_range.mpr small)
      · change (s₁.inodes i).dev = dev at same
        rw [same]
        exact used
      · exact plain
    · intro b isHead same modified
      obtain ⟨i, small, rfl⟩ := isHead
      have flushed := syncPass_flushed valid used inside first i (List.mem_range.mpr small) same modified
      have final := kept₂.holds _ _ _ (synced.holds dev _ (fun _ _ => s.data (headAddr i)) used flushed)
      rw [writtenBack_congr kept₁.superBlk fun j _ => by rw [kept₁.inodes]] at final
      -- the buffer may have got another block meanwhile: then the disk alone has the contents
      by_cases cached : ∃ a, s'.cache.IsHead a ∧ IsFor (s'.head a) dev (s.head (headAddr i)).blockNr
      · obtain ⟨a, inside, isFor⟩ := cached
        exact final.disk a inside isFor (.inl (clean a inside isFor.1))
      · exact final.absent fun a inside isFor => cached ⟨a, inside, isFor⟩

end Passes

/-! ### Single inodes and sets of them -/

/-- The inode is to be written to a device. -/
structure Pending (inode : MInode) : Prop where
  dirt : inode.dirt = true
  dev : inode.dev ≠ 0
  num : inode.num ≠ 0

/-- The inode `i` is clean and its record is in a modified buffer of the block
`2 + s_imap_blocks + s_zmap_blocks + (i_num - 1) / 32`, all other bytes are as before. -/
structure Recorded (s s' : Store) (i : Nat) (sb : SuperBlock) (block : BitVec 32) : Prop where
  place : block.toNat = 2 + sb.imapBlocks.toNat + sb.zmapBlocks.toNat + ((s.inodes i).num.toNat - 1) / 32
  inodes : s'.inodes = Function.update s.inodes i { s.inodes i with dirt := false }
  buffer : ∃ b, s'.cache.IsHead b ∧ IsFor (s'.head b) (s.inodes i).dev block ∧ (s'.head b).dirt = true
  record : ∀ c, s.Holds (s.inodes i).dev block c →
    s'.Holds (s.inodes i).dev block (c.setRecord (((s.inodes i).num.toNat - 1) % 32) (s.inodes i).byteAt)
  others : ∀ dev block' c, dev ≠ 0 → ¬ (dev = (s.inodes i).dev ∧ block' = block) → s.Holds dev block' c →
    s'.Holds dev block' c

section Records

variable {s s' : Store} {dev : BitVec 16} {block : BitVec 32} {c c' : Block} {fuel i : Nat} {l : List Nat}

theorem writeInode_wrote (valid : s.Valid) (small : i < nrInode) (pending : Pending (s.inodes i))
    (done : s.writeInode fuel i = some s') : Wrote s s' i := by
  obtain ⟨_, effect⟩ := writeInodeWith_spec ((syncDev_stuck fuel).quiet small s.inodes) valid done
  rw [if_pos ⟨pending.dirt, pending.dev⟩] at effect
  exact effect

theorem Wrote.recorded (wrote : Wrote s s' i) (pending : Pending (s.inodes i)) :
    ∃ sb block, s.superBlk (s.inodes i).dev = some sb ∧ Recorded s s' i sb block := by
  obtain ⟨sb, b, found, isHead, isFor, modified⟩ := wrote.buffer
  refine ⟨sb, World.inodeBlock sb (s.inodes i).num, found, toNat_inodeBlock sb pending.num, wrote.inodes,
    ⟨b, isHead, isFor, modified⟩, fun c holds => ?_, fun dev block' c used other holds => ?_⟩
  · have after := wrote.holds _ _ (fun _ _ => c) pending.dev holds
    rw [writeRecord_apply found, if_pos ⟨rfl, rfl⟩, slotOf_eq pending.num] at after
    exact after
  · have after := wrote.holds dev block' (fun _ _ => c) used holds
    rw [writeRecord_apply found, if_neg other] at after
    exact after

/-- A block holds one contents only. -/
theorem Holds.unique (holds : s.Holds dev block c) (holds' : s.Holds dev block c') : c = c' := by
  by_cases cached : ∃ b, s.cache.IsHead b ∧ IsFor (s.head b) dev block
  · obtain ⟨b, isHead, isFor⟩ := cached
    cases modified : (s.head b).dirt with
    | true =>
      exact (holds.buffer b isHead isFor (.inl modified)).symm.trans (holds'.buffer b isHead isFor (.inl modified))
    | false => exact (holds.disk b isHead isFor (.inl modified)).symm.trans (holds'.disk b isHead isFor (.inl modified))
  · have absent : ∀ b, s.cache.IsHead b → ¬ IsFor (s.head b) dev block :=
      fun b isHead isFor => cached ⟨b, isHead, isFor⟩
    exact (holds.absent absent).symm.trans (holds'.absent absent)

/-- The inodes of a list are written one after the other. -/
def writeInodes (fuel : Nat) : List Nat → Store → Option Store
  | [], s => some s
  | i :: l, s => (s.writeInode fuel i).bind (writeInodes fuel l)

theorem writeInodes_holds (valid : s.Valid) (inside : ∀ i ∈ l, i < nrInode ∧ Pending (s.inodes i)) (single : l.Nodup)
    (done : writeInodes fuel l s = some s') (blocks : Blocks) (used : dev ≠ 0)
    (holds : s.Holds dev block (blocks dev block)) :
    s'.Holds dev block ((l.map s.inodes).foldl (writeRecord s.superBlk) blocks dev block) := by
  induction l generalizing s blocks with
  | nil =>
    obtain rfl := Option.some.inj done
    exact holds
  | cons i l ih =>
    obtain ⟨here, rest⟩ := List.forall_mem_cons.mp inside
    obtain ⟨fresh, singles⟩ := List.nodup_cons.mp single
    obtain ⟨s₁, written, continued⟩ := Option.bind_eq_some_iff.mp done
    have wrote := writeInode_wrote valid here.1 here.2 written
    -- the write of an inode leaves the later ones as they are
    have same : ∀ j ∈ l, s₁.inodes j = s.inodes j := by
      intro j member
      have other : j ≠ i := fun equal => fresh (equal ▸ member)
      rw [wrote.inodes, Function.update_of_ne other]
    have after := ih wrote.valid (fun j member => by rw [same j member]; exact rest j member) singles continued _
      (wrote.holds dev block blocks used holds)
    rw [List.map_congr_left same, wrote.superBlk] at after
    exact after

theorem nodup_of_apart {inodes : Nat → MInode} (apart : (l.map inodes).Pairwise Apart) : l.Nodup := by
  rw [List.pairwise_map] at apart
  refine apart.imp fun different same => ?_
  subst same
  exact different rfl rfl

theorem superBlk_of_writeInodes (valid : s.Valid) (inside : ∀ i ∈ l, i < nrInode ∧ Pending (s.inodes i))
    (single : l.Nodup) (done : writeInodes fuel l s = some s') (member : i ∈ l) :
    ∃ sb, s.superBlk (s.inodes i).dev = some sb := by
  induction l generalizing s with
  | nil => cases member
  | cons j l ih =>
    obtain ⟨here, rest⟩ := List.forall_mem_cons.mp inside
    obtain ⟨fresh, singles⟩ := List.nodup_cons.mp single
    obtain ⟨s₁, written, continued⟩ := Option.bind_eq_some_iff.mp done
    have wrote := writeInode_wrote valid here.1 here.2 written
    have same : ∀ k ∈ l, s₁.inodes k = s.inodes k := by
      intro k later
      have other : k ≠ j := fun equal => fresh (equal ▸ later)
      rw [wrote.inodes, Function.update_of_ne other]
    rcases List.mem_cons.mp member with rfl | later
    · obtain ⟨sb, _, found, _⟩ := wrote.buffer
      exact ⟨sb, found⟩
    · have found := ih wrote.valid (fun k member => by rw [same k member]; exact rest k member) singles continued later
      rw [same i later, wrote.superBlk] at found
      exact found

end Records

/-- `writeInode` changes the record of the inode and nothing else. The records of
two numbers do not overlap, so a set of inodes can be written in any order, and
each of them is read back. -/
theorem inode_records {fuel : Nat} {s : Store} (valid : s.Valid) :
    (∀ i s', i < nrInode → Pending (s.inodes i) → s.writeInode fuel i = some s' →
      ∃ sb block, s.superBlk (s.inodes i).dev = some sb ∧ Recorded s s' i sb block) ∧
    (∀ sb (num num' : BitVec 16), num ≠ 0 → num' ≠ 0 → num ≠ num' →
      World.inodeBlock sb num ≠ World.inodeBlock sb num' ∨ (num.toNat - 1) % 32 ≠ (num'.toNat - 1) % 32) ∧
    (∀ inode : MInode, DInode.read inode.byteAt = inode.view) ∧
    ∀ l l' s₁ s₂, l.Perm l' → (∀ i ∈ l, i < nrInode ∧ Pending (s.inodes i)) → (l.map s.inodes).Pairwise Apart →
      writeInodes fuel l s = some s₁ → writeInodes fuel l' s = some s₂ →
      (∀ dev block c, dev ≠ 0 → s.Holds dev block c → ∃ c', s₁.Holds dev block c' ∧ s₂.Holds dev block c') ∧
      ∀ i ∈ l, ∃ sb, s.superBlk (s.inodes i).dev = some sb ∧
        ∀ c c', s.Holds (s.inodes i).dev (World.inodeBlock sb (s.inodes i).num) c →
          s₁.Holds (s.inodes i).dev (World.inodeBlock sb (s.inodes i).num) c' →
          DInode.read (c'.record (slotOf (s.inodes i).num)) = (s.inodes i).view := by
  refine ⟨?_, ?_, MInode.read_byteAt, ?_⟩
  · intro i s' small pending done
    exact (writeInode_wrote valid small pending done).recorded pending
  · intro sb num num' numbered numbered' other
    have apart := places_apart sb numbered numbered' other
    rw [slotOf_eq numbered, slotOf_eq numbered'] at apart
    exact apart
  · intro l l' s₁ s₂ perm inside apart first second
    -- places on disk that are apart cannot be the place of one inode twice
    have single := nodup_of_apart apart
    have numbered : ∀ a ∈ l.map s.inodes, a.num ≠ 0 := by
      intro a member
      obtain ⟨i, listed, rfl⟩ := List.mem_map.mp member
      exact (inside i listed).2.num
    constructor
    · intro dev block c used holds
      refine ⟨_, writeInodes_holds valid inside single first (fun _ _ => c) used holds, ?_⟩
      rw [writeRecord_perm (perm.map s.inodes) apart numbered]
      exact writeInodes_holds valid (fun i member => inside i (perm.mem_iff.mpr member)) (perm.nodup single) second
        (fun _ _ => c) used holds
    · intro i member
      obtain ⟨sb, found⟩ := superBlk_of_writeInodes valid inside single first member
      refine ⟨sb, found, fun c c' before after => ?_⟩
      have written := writeInodes_holds valid inside single first (fun _ _ => c) (inside i member).2.dev before
      rw [after.unique written, ← MInode.read_byteAt]
      exact DInode.read_congr fun k small =>
        record_foldl apart numbered (List.mem_map_of_mem member) found small _

/-! ### One inode -/

/-- The only buffer is modified, and an inode is to be written to its block. -/
def oneInode : Store where
  cache := (World.oneBuffer true).cache
  inodes i :=
    { dev := 0x300, num := 33, lock := false, dirt := i = 0, pipe := false, mode := 0x8000, uid := 0, size := 1024,
      mtime := 0, gid := 0, nlinks := 1, zone := fun _ => 7 }
  superBlk _ := some ⟨1, 1⟩
  data _ _ := 0
  disk _ _ _ := 0

theorem valid_oneInode : oneInode.Valid := ⟨World.oneBuffer_wellFormed true, Nat.one_pos⟩

theorem syncDev_flushed_oneInode : ∃ s', syncDev 2 0x300 oneInode = some s' ∧
    (∀ b, s'.cache.IsHead b → (s'.head b).dev = 0x300 → (s'.head b).dirt = false) := by
  have returns : (syncDev 2 0x300 oneInode).isSome = true := by decide +kernel
  obtain ⟨s', done⟩ := Option.isSome_iff_exists.mp returns
  exact ⟨s', done, (@syncDev_flushed 2 oneInode s' 0x300 valid_oneInode (by decide) done).1⟩

theorem inode_records_oneInode : ∃ s' sb block, oneInode.writeInode 1 0 = some s' ∧
    Recorded oneInode s' 0 sb block := by
  have returns : (oneInode.writeInode 1 0).isSome = true := by decide +kernel
  obtain ⟨s', done⟩ := Option.isSome_iff_exists.mp returns
  have pending : Pending (oneInode.inodes 0) := ⟨rfl, by decide, by decide⟩
  obtain ⟨sb, block, _, recorded⟩ := (inode_records valid_oneInode).1 0 s' (by decide) pending done
  exact ⟨s', sb, block, done, recorded⟩

end OperatorSystem.Fs.Store
