import OperatorSystem.Fs.CacheInvariant
import OperatorSystem.Fs.WriteBack

/-!
# The buffer cache as a store of blocks

A task reads blocks into buffers, modifies them, releases them and flushes
devices, and no inode is modified. Seen through the buffers, the cache is a flat
map from blocks to contents, whatever it evicts and when it flushes: `bread`
hands out what was last stored in the block, or what the disk held at first.
-/

namespace OperatorSystem.Fs

/-- The task holds the buffers that `bread` has handed out to it, one entry for each reference. -/
structure Session where
  store : Store
  held : List Addr

namespace Session

open Store

inductive Op
  | bread (dev : BitVec 16) (block : BitVec 32)
  | modify (b : Addr) (c : Block)
  | brelse (b : Addr)
  | syncDev (dev : BitVec 32)

/-- New contents for a buffer, with `b_dirt` set. -/
def stored (s : Store) (b : Addr) (c : Block) : Store :=
  { s.setHead b { s.head b with dirt := true } with data := Function.update s.data b c }

/-- The calls of the task. A buffer has at most 255 references. -/
inductive Step : Session → Op → Session → Prop
  | bread {s : Session} {dev : BitVec 16} {block : BitVec 32} {fuel : Nat} {b : Addr} {store : Store} (device : dev ≠ 0)
      (done : s.store.bread fuel (dev.setWidth 32) block = some (some b, store)) (few : s.held.count b < 255) :
      Step s (.bread dev block) ⟨store, b :: s.held⟩
  | modify {s : Session} {b : Addr} (c : Block) (holds : b ∈ s.held) : Step s (.modify b c) ⟨stored s.store b c, s.held⟩
  | brelse {s : Session} {b : Addr} {store : Store} (holds : b ∈ s.held) (done : s.store.brelse b = some store) :
      Step s (.brelse b) ⟨store, s.held.erase b⟩
  | syncDev {s : Session} {dev : BitVec 32} {fuel : Nat} {store : Store}
      (done : Store.syncDev fuel dev s.store = some store) : Step s (.syncDev dev) ⟨store, s.held⟩

/-- The cache is as `initBuffer` leaves it, the disk holds `disk`, and no inode is modified or locked. -/
def system (disk : Blocks) : Transition.System Session Op where
  init s := s.store.cache.Fresh ∧ s.store.disk = disk ∧ s.held = [] ∧
    ∀ i, (s.store.inodes i).dirt = false ∧ (s.store.inodes i).lock = false
  step := Step

/-- What the task has stored last in each block, or else what the disk held. -/
def contents (disk : Blocks) : List (Session × Op) → Blocks
  | [] => disk
  | (s, .modify b c) :: hist => fun dev block =>
    if (s.store.head b).dev = dev ∧ (s.store.head b).blockNr = block then c else contents disk hist dev block
  | _ :: hist => contents disk hist

/-- The store refines the map of contents. -/
structure Refines (blocks : Blocks) (s : Session) : Prop where
  valid : s.store.Valid
  holds : ∀ dev block, dev ≠ 0 → s.store.Holds dev block (blocks dev block)
  counts : ∀ b, s.store.cache.IsHead b → ((s.store.head b).count).toNat = s.held.count b
  buffers : ∀ b ∈ s.held, s.store.cache.IsHead b ∧ (s.store.head b).dev ≠ 0 ∧ (s.store.head b).uptodate = true
  unlocked : ∀ b, s.store.cache.IsHead b → (s.store.head b).lock = false
  inodes : ∀ i, (s.store.inodes i).dirt = false ∧ (s.store.inodes i).lock = false

section Flushing

variable {sync : BitVec 32 → Store → Option Store} {s s' : Store} {fuel : Nat}

/-- Without a modified or locked inode `syncInodes` does nothing. -/
theorem syncInodesWith_idle {l : List Nat} (idle : ∀ i, (s.inodes i).dirt = false ∧ (s.inodes i).lock = false) :
    syncInodesWith sync fuel l s = some s := by
  induction l with
  | nil => rfl
  | cons i l ih =>
    rw [syncInodesWith, (idle i).1, (idle i).2]
    exact ih

/-- `syncDev` runs its two loops. -/
theorem syncDev_passes {dev : BitVec 32} (idle : ∀ i, (s.inodes i).dirt = false ∧ (s.inodes i).lock = false)
    (done : Store.syncDev fuel dev s = some s') :
    ∃ s₁, syncPass dev (List.range s.cache.nrBuffers) s = some s₁ ∧
      syncPass dev (List.range s₁.cache.nrBuffers) s₁ = some s' := by
  cases fuel with
  | zero => cases done
  | succ fuel =>
    obtain ⟨s₁, first, more⟩ := Option.bind_eq_some_iff.mp done
    have kept := kept_syncPass (fun i => List.mem_range.mp) first
    rw [syncInodesWith_idle (by rw [kept.inodes]; exact idle)] at more
    exact ⟨s₁, first, more⟩

theorem kept_syncDev {dev : BitVec 32} (idle : ∀ i, (s.inodes i).dirt = false ∧ (s.inodes i).lock = false)
    (done : Store.syncDev fuel dev s = some s') : Kept s s' := by
  obtain ⟨s₁, first, second⟩ := syncDev_passes idle done
  exact (kept_syncPass (fun i => List.mem_range.mp) first).trans (kept_syncPass (fun i => List.mem_range.mp) second)

/-- No buffer of the device stays modified. -/
theorem syncDev_clean {dev : BitVec 32} {b : Addr}
    (idle : ∀ i, (s.inodes i).dirt = false ∧ (s.inodes i).lock = false)
    (done : Store.syncDev fuel dev s = some s') (isHead : s.cache.IsHead b)
    (same : (s.head b).dev.setWidth 32 = dev) : (s'.head b).dirt = false := by
  obtain ⟨s₁, first, second⟩ := syncDev_passes idle done
  obtain ⟨i, small, rfl⟩ := isHead
  have clean := syncPass_clean (fun i => List.mem_range.mp) first i (List.mem_range.mpr small) same
  have kept := kept_syncPass (fun i => List.mem_range.mp) second
  by_contra modified
  have before := kept.cleaner _ (by simpa using modified)
  rw [clean] at before
  cases before

theorem quiet_idle (idle : ∀ i, (s.inodes i).dirt = false ∧ (s.inodes i).lock = false) :
    Quiet (Store.syncDev fuel) s.inodes :=
  fun _ _ _ _ same done => kept_syncDev (by rw [same]; exact idle) done

end Flushing

section Steps

variable {blocks : Blocks} {s s' : Session} {dev : BitVec 16} {block : BitVec 32} {b : Addr}
  {fuel : Nat} {store : Store}

/-- What `bread` hands out. -/
theorem Refines.got (refines : Refines blocks s) (device : dev ≠ 0)
    (done : s.store.bread fuel (dev.setWidth 32) block = some (some b, store)) :
    Got s.store store dev block b ∧ (store.head b).uptodate = true ∧ store.data b = blocks dev block := by
  obtain ⟨b', handed, got, uptodate⟩ := breadWith_got (quiet_idle refines.inodes) refines.valid device done
  obtain rfl := Option.some.inj handed
  have holds := got.holds dev block _ device (refines.holds dev block device)
  exact ⟨got, uptodate, holds.data got.isHead got.isFor uptodate⟩

theorem Refines.bread (refines : Refines blocks s) (device : dev ≠ 0)
    (done : s.store.bread fuel (dev.setWidth 32) block = some (some b, store)) (few : s.held.count b < 255) :
    Refines blocks ⟨store, b :: s.held⟩ := by
  obtain ⟨got, uptodate, _⟩ := refines.got device done
  have isHead : ∀ a, store.cache.IsHead a ↔ s.store.cache.IsHead a := by
    intro a
    simp only [Cache.IsHead, got.nrBuffers]
  -- one more reference to the buffer, and every block reads as before
  constructor
  · exact got.valid refines.valid
  · exact fun dev block used => got.holds dev block _ used (refines.holds dev block used)
  · intro a inside
    change ((store.head a).count).toNat = (b :: s.held).count a
    have before := refines.counts a ((isHead a).mp inside)
    rw [got.count, List.count_cons]
    split
    next here =>
      subst here
      have one : (1 : BitVec 8).toNat = 1 := rfl
      rw [BitVec.toNat_add, before, one, Nat.mod_eq_of_lt (by omega)]
      simp
    next other =>
      rw [before, if_neg (by simpa using Ne.symm other), Nat.add_zero]
  · intro a member
    by_cases here : a = b
    · subst here
      exact ⟨got.isHead, by rw [got.isFor.1]; exact device, uptodate⟩
    · obtain ⟨inside, used, current⟩ := refines.buffers a ((List.mem_cons.mp member).resolve_left here)
      obtain ⟨sameDev, _, sameUptodate, _⟩ := got.others a (.inl here)
      exact ⟨(isHead a).mpr inside, by rw [sameDev]; exact used, sameUptodate.trans current⟩
  · intro a inside
    exact (got.lock a).trans (refines.unlocked a ((isHead a).mp inside))
  · change ∀ i, (store.inodes i).dirt = false ∧ (store.inodes i).lock = false
    rw [got.inodes]
    exact refines.inodes

theorem Refines.modify (refines : Refines blocks s) (holds : b ∈ s.held) (c : Block) :
    Refines (fun dev block => if (s.store.head b).dev = dev ∧ (s.store.head b).blockNr = block then c
      else blocks dev block) ⟨stored s.store b c, s.held⟩ := by
  obtain ⟨isHead, used, uptodate⟩ := refines.buffers b holds
  have head : ∀ a, (stored s.store b c).head a =
      { s.store.head a with dirt := if a = b then true else (s.store.head a).dirt } := by
    intro a
    change (s.store.setHead b { s.store.head b with dirt := true }).head a = _
    rw [setHead_head]
    split
    next here => rw [here]
    next => rfl
  -- the buffer of the block is changed, and with it the contents of this block only
  constructor
  · exact ⟨refines.valid.wellFormed.setHead ⟨rfl, rfl, rfl, rfl, rfl, rfl⟩, refines.valid.nonempty⟩
  · intro dev block device
    have before := refines.holds dev block device
    dsimp only
    split
    next here => exact holds_modified refines.valid.wellFormed device isHead here uptodate c
    next other => exact before.modify_other other c
  · intro a inside
    change ((stored s.store b c).head a).count.toNat = _
    rw [head]
    exact refines.counts a inside
  · intro a member
    change (stored s.store b c).cache.IsHead a ∧ ((stored s.store b c).head a).dev ≠ 0 ∧
      ((stored s.store b c).head a).uptodate = true
    rw [head]
    exact refines.buffers a member
  · intro a inside
    change ((stored s.store b c).head a).lock = false
    rw [head]
    exact refines.unlocked a inside
  · exact refines.inodes

theorem Refines.brelse (refines : Refines blocks s) (holds : b ∈ s.held) (done : s.store.brelse b = some store) :
    Refines blocks ⟨store, s.held.erase b⟩ := by
  obtain rfl := brelse_eq done
  have head : ∀ a, (s.store.setHead b { s.store.head b with count := (s.store.head b).count - 1 }).head a =
      { s.store.head a with count := if a = b then (s.store.head a).count - 1 else (s.store.head a).count } := by
    intro a
    rw [setHead_head]
    split
    next here => rw [here]
    next => rfl
  -- one reference less; contents do not depend on counts
  constructor
  · exact ⟨refines.valid.wellFormed.setHead ⟨rfl, rfl, rfl, rfl, rfl, rfl⟩, refines.valid.nonempty⟩
  · exact fun dev block device => (refines.holds dev block device).setHead ⟨rfl, rfl, rfl, rfl⟩
  · intro a inside
    change ((s.store.setHead b { s.store.head b with count := (s.store.head b).count - 1 }).head a).count.toNat =
      (s.held.erase b).count a
    have before := refines.counts a inside
    rw [head]
    dsimp only
    split
    next here =>
      subst here
      have some : 0 < s.held.count a := List.count_pos_iff.mpr holds
      have one : (1 : BitVec 8).toNat = 1 := rfl
      have bound := (s.store.head a).count.isLt
      rw [List.count_erase_self, BitVec.toNat_sub, one]
      omega
    next other => rw [List.count_erase_of_ne other, before]
  · intro a member
    change s.store.cache.IsHead a ∧ ((s.store.setHead b _).head a).dev ≠ 0 ∧
      ((s.store.setHead b _).head a).uptodate = true
    rw [head]
    exact refines.buffers a (List.mem_of_mem_erase member)
  · intro a inside
    change ((s.store.setHead b _).head a).lock = false
    rw [head]
    exact refines.unlocked a inside
  · exact refines.inodes

theorem Refines.syncDev {dev : BitVec 32} (refines : Refines blocks s)
    (done : Store.syncDev fuel dev s.store = some store) : Refines blocks ⟨store, s.held⟩ := by
  have kept := kept_syncDev refines.inodes done
  constructor
  · exact kept.valid refines.valid
  · exact fun dev block device => kept.holds dev block _ (refines.holds dev block device)
  · intro a inside
    change (store.head a).count.toNat = _
    rw [kept.heads]
    exact refines.counts a ((kept.isHead a).mp inside)
  · intro a member
    obtain ⟨inside, used, uptodate⟩ := refines.buffers a member
    change store.cache.IsHead a ∧ (store.head a).dev ≠ 0 ∧ (store.head a).uptodate = true
    rw [kept.heads, kept.isHead]
    exact ⟨inside, used, uptodate⟩
  · intro a inside
    change (store.head a).lock = false
    rw [kept.heads]
    exact refines.unlocked a ((kept.isHead a).mp inside)
  · change ∀ i, (store.inodes i).dirt = false ∧ (store.inodes i).lock = false
    rw [kept.inodes]
    exact refines.inodes

end Steps

/-! ### Calls that come back -/

section Returning

variable {s s' : Store} {dev : BitVec 16} {block : BitVec 32} {b : Addr} {fuel n : Nat} {l : List Nat}

/-- No buffer is locked, and no inode is modified or locked. -/
structure Still (s : Store) : Prop where
  unlocked : ∀ b, s.cache.IsHead b → (s.head b).lock = false
  inodes : ∀ i, (s.inodes i).dirt = false ∧ (s.inodes i).lock = false

theorem Still.kept (still : Still s) (kept : Kept s s') : Still s' := by
  constructor
  · intro b inside
    rw [kept.heads]
    exact still.unlocked b ((kept.isHead b).mp inside)
  · rw [kept.inodes]
    exact still.inodes

theorem waitOnBuffer_unlocked (unlocked : (s.head b).lock = false) : s.waitOnBuffer b = some s := by
  rw [waitOnBuffer, unlocked]
  rfl

/-- A loop of `syncDev` comes back. -/
theorem syncPass_total (dev : BitVec 32) (still : Still s) (inside : ∀ i ∈ l, i < s.cache.nrBuffers) :
    ∃ s', syncPass dev l s = some s' := by
  induction l generalizing s with
  | nil => exact ⟨s, rfl⟩
  | cons i l ih =>
    obtain ⟨here, rest⟩ := List.forall_mem_cons.mp inside
    have isHead : s.cache.IsHead (headAddr i) := ⟨i, here, rfl⟩
    simp only [syncPass]
    split
    · exact ih still rest
    · have kept := kept_writeBlock isHead
      simp only [waitOnBuffer_unlocked (still.unlocked _ isHead), Option.bind_eq_bind, Option.bind_some, writeBlock_eq]
      apply ih (still.kept kept)
      rw [kept.nrBuffers]
      exact rest

theorem syncDev_total (fuel : Nat) (dev : BitVec 32) (still : Still s) :
    ∃ s', Store.syncDev (fuel + 1) dev s = some s' := by
  obtain ⟨s₁, first⟩ := syncPass_total dev still (fun i => List.mem_range.mp)
  have kept := kept_syncPass (fun i => List.mem_range.mp) first
  obtain ⟨s₂, second⟩ := syncPass_total dev (still.kept kept) (fun i => List.mem_range.mp)
  refine ⟨s₂, ?_⟩
  rw [Store.syncDev, first]
  simp only [Option.bind_eq_bind, Option.bind_some]
  rw [syncInodesWith_idle (still.kept kept).inodes]
  exact second

theorem getHashTable_total (n : Nat) (dev : BitVec 16) (block : BitVec 32) (valid : s.Valid) (still : Still s) :
    ∃ result, getHashTable (n + 1) s (dev.setWidth 32) block = some result := by
  obtain ⟨free, chain, queues⟩ := valid.wellFormed.queues
  obtain ⟨hit, searched⟩ := queues.findBuffer_total (dev.setWidth 32) block
  change s.cache.findBuffer s.searchFuel (dev.setWidth 32) block = some hit at searched
  rw [getHashTable, searched]
  cases hit with
  | none => exact ⟨_, rfl⟩
  | some b =>
    obtain ⟨isHead, _, sameDev, sameBlock⟩ := queues.findBuffer_hit searched
    have head : (s.setHead b { s.head b with count := (s.head b).count + 1 }).head b =
        { s.head b with count := (s.head b).count + 1 } := setHead_self
    have unlocked : ((s.setHead b { s.head b with count := (s.head b).count + 1 }).head b).lock = false := by
      rw [head]
      exact still.unlocked b isHead
    simp only [Option.bind_eq_bind, Option.bind_some, waitOnBuffer_unlocked unlocked, head]
    rw [if_pos ⟨sameDev, sameBlock⟩]
    exact ⟨_, rfl⟩

/-- The loop on a dirty victim ends after one flush. -/
theorem flushVictim_total (fuel n : Nat) (still : Still s) (isHead : s.cache.IsHead b) (unused : (s.head b).count = 0) :
    ∃ s', flushVictim (Store.syncDev (fuel + 1)) (n + 2) s b = some (true, s') ∧ Kept s s' := by
  rw [flushVictim]
  split
  · obtain ⟨s₁, flushed⟩ := syncDev_total fuel ((s.head b).dev.setWidth 32) still
    have kept := kept_syncDev still.inodes flushed
    have clean := syncDev_clean still.inodes flushed isHead rfl
    have waits := waitOnBuffer_unlocked ((still.kept kept).unlocked b ((kept.isHead b).mpr isHead))
    have unused' : ¬ (s₁.head b).count ≠ 0 := by
      rw [kept.heads]
      exact not_not.mpr unused
    simp only [flushed, waits, Option.bind_eq_bind, Option.bind_some]
    rw [if_neg unused', flushVictim, clean]
    exact ⟨s₁, rfl, kept⟩
  · exact ⟨s, rfl, .refl s⟩

/-- `getblk` comes back where the block has a buffer or a buffer is free. -/
theorem getblk_total (valid : s.Valid) (still : Still s) (device : dev ≠ 0)
    (room : ∃ b, s.cache.IsHead b ∧ (IsFor (s.head b) dev block ∨ (s.head b).count = 0)) :
    ∃ result, s.getblk 2 (dev.setWidth 32) block = some result := by
  obtain ⟨⟨found, s₁⟩, looked⟩ := getHashTable_total 1 dev block valid still
  rw [getblk, getblkWith, looked]
  simp only [Option.bind_eq_bind, Option.bind_some]
  rcases getHashTable_spec valid.wellFormed looked with ⟨b, rfl, _⟩ | ⟨rfl, rfl, absent⟩
  · exact ⟨_, rfl⟩
  · obtain ⟨free, chain, queues⟩ := valid.wellFormed.queues
    have miss : ∀ a, s₁.cache.IsHead a → ¬ IsFor (s₁.head a) dev block := by
      intro a inside isFor
      apply queues.findBuffer_miss absent inside
      · rw [show (s₁.cache.heads a).dev = dev from isFor.1]
        exact device
      · rw [show (s₁.cache.heads a).dev = dev from isFor.1]
        exact ⟨rfl, isFor.2⟩
    obtain ⟨a, inside, which⟩ := room
    obtain ⟨v, scanned⟩ := queues.victim_total inside (which.resolve_left (miss a inside))
    change s₁.cache.victim s₁.searchFuel = some (some v) at scanned
    obtain ⟨isHead, unused⟩ := queues.victim_mem ⟨a, inside⟩ scanned
    obtain ⟨s₂, flushed, kept⟩ := flushVictim_total 1 0 still isHead unused
    have waits := waitOnBuffer_unlocked (still.unlocked v isHead)
    obtain ⟨free', chain', queues'⟩ := (kept.valid valid).wellFormed.queues
    -- the flush has brought no buffer for the block
    obtain ⟨hit, searched⟩ := queues'.findBuffer_total (dev.setWidth 32) block
    change s₂.cache.findBuffer s₂.searchFuel (dev.setWidth 32) block = some hit at searched
    have absent' : hit = none := by
      cases hit with
      | none => rfl
      | some b =>
        obtain ⟨member, _, sameDev, sameBlock⟩ := queues'.findBuffer_hit searched
        have same := kept.heads b
        refine absurd ⟨?_, ?_⟩ (miss b ((kept.isHead b).mp member))
        · rw [← setWidth_inj sameDev]
          exact (congrArg BufferHead.dev same).symm
        · rw [← sameBlock]
          exact (congrArg BufferHead.blockNr same).symm
    obtain ⟨cache, claimed⟩ := Cache.claim_isSome queues' ((kept.isHead v).mpr isHead) (dev.setWidth 32) block
    have unused' : ¬ (s₁.head v).count ≠ 0 := not_not.mpr unused
    simp only [scanned, waits, Option.bind_some]
    rw [if_neg unused', flushed]
    simp only [Option.bind_some, searched, absent', claimed]
    exact ⟨_, rfl⟩

theorem bread_total (valid : s.Valid) (still : Still s) (device : dev ≠ 0)
    (room : ∃ b, s.cache.IsHead b ∧ (IsFor (s.head b) dev block ∨ (s.head b).count = 0)) :
    ∃ result, s.bread 2 (dev.setWidth 32) block = some result := by
  obtain ⟨⟨b, s₁⟩, taken⟩ := getblk_total valid still device room
  have got := getblkWith_got (quiet_idle still.inodes) valid device taken
  have isHead : s.cache.IsHead b := by
    simpa only [Cache.IsHead, got.nrBuffers] using got.isHead
  have unlocked : ((s₁.readBlock b).head b).lock = false := (got.readBlock.lock b).trans (still.unlocked b isHead)
  rw [getblk] at taken
  rw [Store.bread, breadWith, taken]
  simp only [Option.bind_eq_bind, Option.bind_some]
  split
  · exact ⟨_, rfl⟩
  · rw [waitOnBuffer_unlocked unlocked]
    simp only [Option.bind_some, if_pos (uptodate_readBlock s₁ b)]
    exact ⟨_, rfl⟩

end Returning

/-! ### Runs -/

section Runs

variable {disk blocks : Blocks} {hist : List (Session × Op)} {s s' : Session} {op : Op}

theorem refines_init (start : (system disk).init s) : Refines disk s := by
  obtain ⟨fresh, same, none, idle⟩ := start
  have unused : ∀ b, s.store.cache.IsHead b → (s.store.head b).dev = 0 := fun b inside => (fresh.unused b inside).1
  -- no buffer has a device yet, so none is for a block
  have unassigned : ∀ dev block b, dev ≠ 0 → s.store.cache.IsHead b → ¬ IsFor (s.store.head b) dev block := by
    intro dev block b device inside isFor
    exact device (isFor.1.symm.trans (unused b inside))
  constructor
  · refine ⟨⟨fresh.queues, fun a b inside _ used => ?_⟩, fresh.nonempty⟩
    exact absurd (unused a inside) used
  · intro dev block device
    constructor
    · exact fun b inside isFor => absurd isFor (unassigned dev block b device inside)
    · exact fun b inside isFor => absurd isFor (unassigned dev block b device inside)
    · exact fun _ => congrFun (congrFun same dev) block
  · intro b inside
    change (s.store.cache.heads b).count.toNat = _
    rw [(fresh.unused b inside).2.1, none]
    rfl
  · rw [none]
    exact List.forall_mem_nil _
  · exact fun b inside => (fresh.unused b inside).2.2.2.1
  · exact idle

theorem refines_step (refines : Refines (contents disk hist) s) (taken : (system disk).step s op s') :
    Refines (contents disk ((s, op) :: hist)) s' := by
  cases taken with
  | bread device done few => exact refines.bread device done few
  | modify c holds => exact refines.modify holds c
  | brelse holds done => exact refines.brelse holds done
  | syncDev done => exact refines.syncDev done

/-- In every run the store refines the map of what the task has stored. -/
theorem refines_run (run : Transition.Run (system disk) hist s) : Refines (contents disk hist) s := by
  induction run with
  | init start => exact refines_init start
  | step _ taken ih => exact refines_step ih taken

end Runs

theorem Refines.still {blocks : Blocks} {s : Session} (refines : Refines blocks s) : Still s.store :=
  ⟨refines.unlocked, refines.inodes⟩

/-- A cache, and a disk of zeros, before the task has done anything. -/
def blank (cache : Cache) : Session where
  store :=
    { cache
      inodes _ :=
        { dev := 0, num := 0, lock := false, dirt := false, pipe := false, mode := 0, uid := 0, size := 0, mtime := 0,
          gid := 0, nlinks := 0, zone := fun _ => 0 }
      superBlk _ := none
      data _ _ := 0
      disk _ _ _ := 0 }
  held := []

end Session

end OperatorSystem.Fs
