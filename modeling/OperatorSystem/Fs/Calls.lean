import OperatorSystem.Fs.Buffer
import OperatorSystem.Library.Transition

/-!
# Tasks in the buffer cache and the inode table (`buffer.c`, `inode.c`)

Each task has a stack of calls, and `exec` is the next step of the innermost
call of the running task. Another task runs only where the running one sleeps,
or outside these functions. A sleeping task tests its condition again whenever
it runs. The requests of `ll_rw_block` are completed by the disk at any later
time. A call that ends in one of the `while (1)` loops makes no further step.
-/

namespace OperatorSystem.Fs

def nrInode : Nat := 32
def inodesPerBlock : BitVec 32 := 32
def nrBlkDev : Nat := 7

/-- The fields of `MINODE` that the functions use. -/
structure Inode where
  dev : BitVec 16
  num : BitVec 16
  lock : Bool
  dirt : Bool
  pipe : Bool

/-- The fields of `SUPER_BLOCK` that the functions use. -/
structure SuperBlock where
  imapBlocks : BitVec 16
  zmapBlocks : BitVec 16

/-- A call, with the place it has reached. -/
inductive Frame
  /-- `getblk` at `repeat` -/
  | getblk (dev block : BitVec 32)
  /-- `getHashTable` in `waitOnBuffer`, with the count of `b` raised -/
  | hashWait (dev block : BitVec 32) (b : Addr)
  /-- `getblk` asleep on `BUFFER_WAIT` -/
  | bufferWait (dev block : BitVec 32)
  /-- `getblk` in `waitOnBuffer` for the victim `b` -/
  | victim (dev block : BitVec 32) (b : Addr)
  | bread (dev block : BitVec 32)
  /-- `bread` in its call of `getblk` -/
  | breadValue
  /-- `bread` in `ll_rw_block` and `waitOnBuffer` -/
  | breadWait (b : Addr)
  /-- `bread` in `brelse`, about to return NULL -/
  | breadFailed
  /-- `brelse` in `waitOnBuffer` -/
  | brelse (b : Addr)
  /-- `syncDev` at the head with index `i`, in its first or second loop -/
  | syncTest (dev : BitVec 32) (second : Bool) (i : Nat)
  /-- `syncDev` in `waitOnBuffer` -/
  | syncWait (dev : BitVec 32) (second : Bool) (i : Nat)
  /-- `syncInodes` in `waitOnInode` -/
  | syncInodes (i : Nat)
  /-- `writeInode` in `lockInode` -/
  | writeInode (i : Nat)
  /-- `writeInode` in its call of `bread` -/
  | inodeValue (i : Nat)
  /-- `writeInode` in its call of `brelse` -/
  | inodeDone (i : Nat)
  /-- `ll_rw_block` for READ or WRITE, up to `lockBuffer` -/
  | llRwBlock (write : Bool) (b : Addr)
  /-- `makeRequest` looking for a free slot -/
  | request (b : Addr)
  /-- the return to the caller -/
  | ret (value : Option Addr)
  deriving DecidableEq

/-- The state of the file system, for tasks of the type `τ`. -/
structure World (τ : Type) where
  cache : Cache
  /-- `INODE_TABLE` -/
  inodes : Nat → Inode
  /-- `getSuper`; nothing locks a super block. -/
  superBlk : BitVec 16 → Option SuperBlock
  /-- Whether `request_fn` is set, by major number. -/
  requestFn : Nat → Bool
  frames : τ → List Frame
  /-- The buffers that the tasks' own code has been handed out and has not released. -/
  held : τ → List Addr
  running : τ

namespace World

variable {τ : Type} [DecidableEq τ]

def head (s : World τ) (b : Addr) : BufferHead := s.cache.heads b

def setHead (s : World τ) (b : Addr) (h : BufferHead) : World τ := { s with cache := s.cache.setHead b h }

def setInode (s : World τ) (i : Nat) (inode : Inode) : World τ :=
  { s with inodes := Function.update s.inodes i inode }

/-- The calls of the running task. -/
def stack (s : World τ) : List Frame := s.frames s.running

def setStack (s : World τ) (frames : List Frame) : World τ :=
  { s with frames := Function.update s.frames s.running frames }

/-! ### The functions -/

/-- `getHashTable`, up to its wait, and then the search for a victim. -/
def getblkStep (s : World τ) (fuel : Nat) (dev block : BitVec 32) (below : List Frame) : Option (World τ) := do
  match ← s.cache.findBuffer fuel dev block with
  | some b =>
    return (s.setHead b { s.head b with count := (s.head b).count + 1 }).setStack
      (.hashWait dev block b :: below)
  | none =>
    match ← s.cache.victim fuel with
    | some b => return s.setStack (.victim dev block b :: below)
    | none => return s.setStack (.bufferWait dev block :: below)

/-- `getHashTable` after its wait. -/
def hashStep (s : World τ) (dev block : BitVec 32) (b : Addr) (below : List Frame) : World τ :=
  if (s.head b).dev.setWidth 32 = dev ∧ (s.head b).blockNr = block then s.setStack (.ret (some b) :: below)
  else (s.setHead b { s.head b with count := (s.head b).count - 1 }).setStack (.getblk dev block :: below)

/-- `getblk` after the wait for its victim. -/
def victimStep (s : World τ) (fuel : Nat) (dev block : BitVec 32) (b : Addr) (below : List Frame) :
    Option (World τ) :=
  if (s.head b).count ≠ 0 then some (s.setStack (.getblk dev block :: below))
  else if (s.head b).dirt then
    some (s.setStack (.syncTest ((s.head b).dev.setWidth 32) false 0 :: .victim dev block b :: below))
  else do
    match ← s.cache.findBuffer fuel dev block with
    | some _ => return s.setStack (.getblk dev block :: below)
    | none =>
      let cache ← s.cache.claim b dev block
      return { s with cache }.setStack (.ret (some b) :: below)

/-- `brelse` after its wait; the count of a free buffer stays where `brelse` ends. -/
def brelseStep (s : World τ) (b : Addr) (below : List Frame) : Option (World τ) :=
  if (s.head b).count = 0 then none
  else some ((s.setHead b { s.head b with count := (s.head b).count - 1 }).setStack (.ret none :: below))

/-- `syncDev` at a head, or at the end of one of its loops. -/
def syncStep (s : World τ) (dev : BitVec 32) (second : Bool) (i : Nat) (below : List Frame) : World τ :=
  if i < s.cache.nrBuffers then
    if (s.head (headAddr i)).dev.setWidth 32 ≠ dev then s.setStack (.syncTest dev second (i + 1) :: below)
    else s.setStack (.syncWait dev second i :: below)
  else if second then s.setStack (.ret none :: below)
  else s.setStack (.syncInodes 0 :: .syncTest dev true 0 :: below)

/-- `syncDev` after its wait. -/
def syncWrite (s : World τ) (dev : BitVec 32) (second : Bool) (i : Nat) (below : List Frame) : World τ :=
  if (s.head (headAddr i)).dev.setWidth 32 = dev ∧ (s.head (headAddr i)).dirt then
    s.setStack (.llRwBlock true (headAddr i) :: .syncTest dev second (i + 1) :: below)
  else s.setStack (.syncTest dev second (i + 1) :: below)

/-- `syncInodes` at an inode that is not locked, or at its end. -/
def inodeStep (s : World τ) (i : Nat) (below : List Frame) : World τ :=
  if i < nrInode then
    if (s.inodes i).dirt ∧ ¬ (s.inodes i).pipe then
      s.setStack (.writeInode i :: .syncInodes (i + 1) :: below)
    else s.setStack (.syncInodes (i + 1) :: below)
  else s.setStack (.ret none :: below)

/-- The block of an inode. -/
def inodeBlock (sb : SuperBlock) (num : BitVec 16) : BitVec 32 :=
  2 + sb.imapBlocks.setWidth 32 + sb.zmapBlocks.setWidth 32 + (num.setWidth 32 - 1).udiv inodesPerBlock

/-- `writeInode` on an inode that is not locked, up to its call of `bread`. -/
def writeStep (s : World τ) (i : Nat) (below : List Frame) : Option (World τ) :=
  let inode := s.inodes i
  if ¬ inode.dirt ∨ inode.dev = 0 then some (s.setStack (.ret none :: below))
  else do
    let sb ← s.superBlk inode.dev
    return (s.setInode i { inode with lock := true }).setStack
      (.bread (inode.dev.setWidth 32) (inodeBlock sb inode.num) :: .inodeValue i :: below)

/-- The device of the buffer has a driver. -/
def HasDriver (s : World τ) (b : Addr) : Prop :=
  major (s.head b).dev < nrBlkDev ∧ s.requestFn (major (s.head b).dev)

instance (s : World τ) (b : Addr) : Decidable (s.HasDriver b) := by
  unfold HasDriver
  infer_instance

/-- `ll_rw_block`, from the lock of the buffer to the search for a slot. -/
def llRwStep (s : World τ) (write : Bool) (b : Addr) (below : List Frame) : World τ :=
  if ¬ s.HasDriver b then s.setStack (.ret none :: below)
  else if (write ∧ ¬ (s.head b).dirt) ∨ (¬ write ∧ (s.head b).uptodate) then s.setStack (.ret none :: below)
  else (s.setHead b { s.head b with lock := true }).setStack (.request b :: below)

/-- What the caller does with a returned value. -/
def resume (s : World τ) (value : Option Addr) (below : List Frame) : Option (World τ) :=
  match below with
  | [] => some { s.setStack [] with
      held := Function.update s.held s.running (value.toList ++ s.held s.running) }
  | .breadValue :: below => do
    let b ← value
    return s.setStack (if (s.head b).uptodate then .ret (some b) :: below
      else .llRwBlock false b :: .breadWait b :: below)
  | .breadFailed :: below => some (s.setStack (.ret none :: below))
  | .inodeValue i :: below => do
    let b ← value
    let s := s.setHead b { s.head b with dirt := true }
    return (s.setInode i { s.inodes i with dirt := false }).setStack (.brelse b :: .inodeDone i :: below)
  | .inodeDone i :: below =>
    some ((s.setInode i { s.inodes i with lock := false }).setStack (.ret none :: below))
  | _ => some (s.setStack below)

/-- The buffer or inode whose lock the innermost call waits for. -/
def Waits (s : World τ) : Frame → Prop
  | .hashWait _ _ b => (s.head b).lock
  | .victim _ _ b => (s.head b).lock
  | .breadWait b => (s.head b).lock
  | .brelse b => (s.head b).lock
  | .syncWait _ _ i => (s.head (headAddr i)).lock
  | .llRwBlock _ b => s.HasDriver b ∧ (s.head b).lock
  | .syncInodes i => i < nrInode ∧ (s.inodes i).lock
  | .writeInode i => (s.inodes i).lock
  | _ => False

instance (s : World τ) (f : Frame) : Decidable (s.Waits f) := by
  unfold Waits
  split <;> infer_instance

/-- The next step of the innermost call of the running task. -/
def exec (s : World τ) (fuel : Nat) : Option (World τ) :=
  match s.stack with
  | [] => none
  | f :: below =>
    if s.Waits f then none
    else
      match f with
      | .getblk dev block => s.getblkStep fuel dev block below
      | .hashWait dev block b => some (s.hashStep dev block b below)
      | .bufferWait dev block => some (s.setStack (.getblk dev block :: below))
      | .victim dev block b => s.victimStep fuel dev block b below
      | .bread dev block => some (s.setStack (.getblk dev block :: .breadValue :: below))
      | .breadWait b =>
        some (s.setStack (if (s.head b).uptodate then .ret (some b) :: below
          else .brelse b :: .breadFailed :: below))
      | .brelse b => s.brelseStep b below
      | .syncTest dev second i => some (s.syncStep dev second i below)
      | .syncWait dev second i => some (s.syncWrite dev second i below)
      | .syncInodes i => some (s.inodeStep i below)
      | .writeInode i => s.writeStep i below
      | .llRwBlock write b => some (s.llRwStep write b below)
      | .request b =>
        some ((s.setHead b { s.head b with dirt := false }).setStack (.ret none :: below))
      | .ret value => s.resume value below
      | .breadValue | .breadFailed | .inodeValue _ | .inodeDone _ => none

/-! ### Steps -/

/-- The functions a task calls, as the calls they start with. -/
inductive Entry : List Addr → Frame → List Addr → Prop
  | getblk {held : List Addr} {dev block : BitVec 32} : Entry held (.getblk dev block) held
  | bread {held : List Addr} {dev block : BitVec 32} : Entry held (.bread dev block) held
  /-- Only a buffer that has been handed out is released. -/
  | brelse {held : List Addr} {b : Addr} (holds : b ∈ held) : Entry held (.brelse b) (held.erase b)
  | syncDev {held : List Addr} {dev : BitVec 32} : Entry held (.syncTest dev false 0) held
  | syncInodes {held : List Addr} : Entry held (.syncInodes 0) held
  | writeInode {held : List Addr} {i : Nat} (inside : i < nrInode) : Entry held (.writeInode i) held

inductive Event
  | call
  | exec
  | switch
  | disk
  | own

inductive Step : World τ → Event → World τ → Prop
  | call {s : World τ} {f : Frame} {held : List Addr} (idle : s.stack = [])
      (entry : Entry (s.held s.running) f held) :
      Step s .call { s.setStack [f] with held := Function.update s.held s.running held }
  | exec {s s' : World τ} {fuel : Nat} (done : s.exec fuel = some s') : Step s .exec s'
  /-- `sleepOn` switches to another task, and so may a task outside the functions. -/
  | switch {s : World τ} {t : τ} (sleeps : ∀ f below, s.stack = f :: below →
      s.Waits f ∨ (∃ dev block, f = .bufferWait dev block) ∨ ∃ b, f = .request b) :
      Step s .switch { s with running := t }
  /-- The disk completes the request for a buffer. -/
  | disk {s : World τ} {b : Addr} {uptodate : Bool} (locked : (s.head b).lock) :
      Step s .disk (s.setHead b { s.head b with uptodate, lock := false })
  /-- A task writes to a buffer that it holds. -/
  | dirty {s : World τ} {b : Addr} (holds : b ∈ s.held s.running) :
      Step s .own (s.setHead b { s.head b with dirt := true })
  /-- Other kernel code uses the inodes. -/
  | inode {s : World τ} {i : Nat} {inode : Inode} (lock : inode.lock = (s.inodes i).lock) :
      Step s .own (s.setInode i inode)

/-! ### The parts of a state -/

section Parts

variable {s : World τ} {frames : List Frame}

@[simp] theorem setStack_stack : (s.setStack frames).stack = frames := by simp [setStack, stack]

omit [DecidableEq τ] in
@[simp] theorem setHead_stack (b : Addr) (h : BufferHead) : (s.setHead b h).stack = s.stack := rfl

omit [DecidableEq τ] in
@[simp] theorem setInode_stack (i : Nat) (inode : Inode) : (s.setInode i inode).stack = s.stack := rfl

@[simp] theorem setStack_cache : (s.setStack frames).cache = s.cache := rfl

omit [DecidableEq τ] in
@[simp] theorem setInode_cache (i : Nat) (inode : Inode) : (s.setInode i inode).cache = s.cache := rfl

@[simp] theorem setStack_held : (s.setStack frames).held = s.held := rfl

@[simp] theorem setStack_head (b : Addr) : (s.setStack frames).head b = s.head b := rfl

omit [DecidableEq τ] in
@[simp] theorem setInode_head (i : Nat) (inode : Inode) (b : Addr) :
    (s.setInode i inode).head b = s.head b := rfl

omit [DecidableEq τ] in
theorem setHead_head (a b : Addr) (h : BufferHead) :
    (s.setHead b h).head a = if a = b then h else s.head a := by
  simp only [head, setHead, Cache.setHead, Function.update_apply]

omit [DecidableEq τ] in
@[simp] theorem setHead_held (b : Addr) (h : BufferHead) : (s.setHead b h).held = s.held := rfl

omit [DecidableEq τ] in
@[simp] theorem setInode_held (i : Nat) (inode : Inode) : (s.setInode i inode).held = s.held := rfl

end Parts

/-! ### What a call can do -/

/-- The outcomes of a step of the call `f` above the calls `below`. -/
inductive Next (s : World τ) : Frame → List Frame → World τ → Prop
  | found {dev block : BitVec 32} {below : List Frame} {fuel : Nat} {b : Addr}
      (hit : s.cache.findBuffer fuel dev block = some (some b)) :
      Next s (.getblk dev block) below
        ((s.setHead b { s.head b with count := (s.head b).count + 1 }).setStack (.hashWait dev block b :: below))
  | chosen {dev block : BitVec 32} {below : List Frame} {fuel : Nat} {b : Addr}
      (absent : s.cache.findBuffer fuel dev block = some none)
      (best : s.cache.victim fuel = some (some b)) :
      Next s (.getblk dev block) below (s.setStack (.victim dev block b :: below))
  | full {dev block : BitVec 32} {below : List Frame} {fuel : Nat}
      (absent : s.cache.findBuffer fuel dev block = some none) :
      Next s (.getblk dev block) below (s.setStack (.bufferWait dev block :: below))
  | matched {dev block : BitVec 32} {below : List Frame} {b : Addr}
      (id : (s.head b).dev.setWidth 32 = dev ∧ (s.head b).blockNr = block) :
      Next s (.hashWait dev block b) below (s.setStack (.ret (some b) :: below))
  | moved {dev block : BitVec 32} {below : List Frame} {b : Addr}
      (other : ¬ ((s.head b).dev.setWidth 32 = dev ∧ (s.head b).blockNr = block)) :
      Next s (.hashWait dev block b) below
        ((s.setHead b { s.head b with count := (s.head b).count - 1 }).setStack (.getblk dev block :: below))
  | retry {dev block : BitVec 32} {below : List Frame} :
      Next s (.bufferWait dev block) below (s.setStack (.getblk dev block :: below))
  | again {dev block : BitVec 32} {below : List Frame} {b : Addr} :
      Next s (.victim dev block b) below (s.setStack (.getblk dev block :: below))
  | dirty {dev block : BitVec 32} {below : List Frame} {b : Addr} (unlocked : (s.head b).lock = false)
      (free : (s.head b).count = 0) (dirt : (s.head b).dirt) :
      Next s (.victim dev block b) below
        (s.setStack (.syncTest ((s.head b).dev.setWidth 32) false 0 :: .victim dev block b :: below))
  | claim {dev block : BitVec 32} {below : List Frame} {fuel : Nat} {b : Addr} {cache : Cache}
      (unlocked : (s.head b).lock = false) (free : (s.head b).count = 0) (clean : (s.head b).dirt = false)
      (absent : s.cache.findBuffer fuel dev block = some none)
      (claimed : s.cache.claim b dev block = some cache) :
      Next s (.victim dev block b) below ({ s with cache }.setStack (.ret (some b) :: below))
  | bread {dev block : BitVec 32} {below : List Frame} :
      Next s (.bread dev block) below (s.setStack (.getblk dev block :: .breadValue :: below))
  | breadHit {b : Addr} {below : List Frame} :
      Next s (.ret (some b)) (.breadValue :: below) (s.setStack (.ret (some b) :: below))
  | breadMiss {b : Addr} {below : List Frame} :
      Next s (.ret (some b)) (.breadValue :: below) (s.setStack (.llRwBlock false b :: .breadWait b :: below))
  | breadDone {b : Addr} {below : List Frame} :
      Next s (.breadWait b) below (s.setStack (.ret (some b) :: below))
  | breadError {b : Addr} {below : List Frame} :
      Next s (.breadWait b) below (s.setStack (.brelse b :: .breadFailed :: below))
  | breadNull {value : Option Addr} {below : List Frame} :
      Next s (.ret value) (.breadFailed :: below) (s.setStack (.ret none :: below))
  | brelse {b : Addr} {below : List Frame} (used : (s.head b).count ≠ 0) :
      Next s (.brelse b) below
        ((s.setHead b { s.head b with count := (s.head b).count - 1 }).setStack (.ret none :: below))
  | syncNext {dev : BitVec 32} {second : Bool} {i : Nat} {below : List Frame} :
      Next s (.syncTest dev second i) below (s.setStack (.syncTest dev second (i + 1) :: below))
  | syncHere {dev : BitVec 32} {second : Bool} {i : Nat} {below : List Frame} :
      Next s (.syncTest dev second i) below (s.setStack (.syncWait dev second i :: below))
  | syncMiddle {dev : BitVec 32} {second : Bool} {i : Nat} {below : List Frame} :
      Next s (.syncTest dev second i) below (s.setStack (.syncInodes 0 :: .syncTest dev true 0 :: below))
  | syncEnd {dev : BitVec 32} {second : Bool} {i : Nat} {below : List Frame} :
      Next s (.syncTest dev second i) below (s.setStack (.ret none :: below))
  | syncWrite {dev : BitVec 32} {second : Bool} {i : Nat} {below : List Frame} :
      Next s (.syncWait dev second i) below
        (s.setStack (.llRwBlock true (headAddr i) :: .syncTest dev second (i + 1) :: below))
  | syncClean {dev : BitVec 32} {second : Bool} {i : Nat} {below : List Frame} :
      Next s (.syncWait dev second i) below (s.setStack (.syncTest dev second (i + 1) :: below))
  | inodeWrite {i : Nat} {below : List Frame} :
      Next s (.syncInodes i) below (s.setStack (.writeInode i :: .syncInodes (i + 1) :: below))
  | inodeClean {i : Nat} {below : List Frame} :
      Next s (.syncInodes i) below (s.setStack (.syncInodes (i + 1) :: below))
  | inodeEnd {i : Nat} {below : List Frame} :
      Next s (.syncInodes i) below (s.setStack (.ret none :: below))
  | writeSkip {i : Nat} {below : List Frame} :
      Next s (.writeInode i) below (s.setStack (.ret none :: below))
  | writeLock {i : Nat} {block : BitVec 32} {below : List Frame} (nonzero : (s.inodes i).dev ≠ 0) :
      Next s (.writeInode i) below
        ((s.setInode i { s.inodes i with lock := true }).setStack
          (.bread ((s.inodes i).dev.setWidth 32) block :: .inodeValue i :: below))
  | writeDirty {i : Nat} {b : Addr} {below : List Frame} :
      Next s (.ret (some b)) (.inodeValue i :: below)
        (((s.setHead b { s.head b with dirt := true }).setInode i { s.inodes i with dirt := false }).setStack
          (.brelse b :: .inodeDone i :: below))
  | writeUnlock {i : Nat} {value : Option Addr} {below : List Frame} :
      Next s (.ret value) (.inodeDone i :: below)
        ((s.setInode i { s.inodes i with lock := false }).setStack (.ret none :: below))
  | llSkip {write : Bool} {b : Addr} {below : List Frame} :
      Next s (.llRwBlock write b) below (s.setStack (.ret none :: below))
  | llLock {write : Bool} {b : Addr} {below : List Frame} :
      Next s (.llRwBlock write b) below
        ((s.setHead b { s.head b with lock := true }).setStack (.request b :: below))
  | queued {b : Addr} {below : List Frame} :
      Next s (.request b) below
        ((s.setHead b { s.head b with dirt := false }).setStack (.ret none :: below))
  | handOut {value : Option Addr} :
      Next s (.ret value) [] { s.setStack [] with
        held := Function.update s.held s.running (value.toList ++ s.held s.running) }
  | resume {value : Option Addr} {f : Frame} {below : List Frame} (plain : f ≠ .breadValue)
      (plain' : ∀ i, f ≠ .inodeValue i) (plain'' : ∀ i, f ≠ .inodeDone i) :
      Next s (.ret value) (f :: below) (s.setStack (f :: below))

section Inversion

variable {s s' : World τ} {below : List Frame} {fuel : Nat} {dev block : BitVec 32} {b : Addr} {i : Nat}

theorem getblk_next (done : s.getblkStep fuel dev block below = some s') :
    Next s (.getblk dev block) below s' := by
  obtain ⟨found, searched, rest⟩ := Option.bind_eq_some_iff.mp done
  cases found with
  | some b =>
    rw [← Option.some.inj rest]
    exact .found searched
  | none =>
    obtain ⟨victim, scanned, rest⟩ := Option.bind_eq_some_iff.mp rest
    cases victim with
    | some b =>
      rw [← Option.some.inj rest]
      exact .chosen searched scanned
    | none =>
      rw [← Option.some.inj rest]
      exact .full searched

theorem victim_next (unlocked : (s.head b).lock = false)
    (done : s.victimStep fuel dev block b below = some s') : Next s (.victim dev block b) below s' := by
  unfold victimStep at done
  split at done
  · rw [← Option.some.inj done]
    exact .again
  next free =>
    split at done
    next dirt =>
      rw [← Option.some.inj done]
      exact .dirty unlocked (not_not.mp free) dirt
    -- the buffer is claimed only if the block has not come in meanwhile
    next clean =>
      obtain ⟨found, searched, rest⟩ := Option.bind_eq_some_iff.mp done
      cases found with
      | some b =>
        rw [← Option.some.inj rest]
        exact .again
      | none =>
        obtain ⟨cache, claimed, rest⟩ := Option.bind_eq_some_iff.mp rest
        rw [← Option.some.inj rest]
        exact .claim unlocked (not_not.mp free) (by simpa using clean) searched claimed

theorem sync_next {second : Bool} : Next s (.syncTest dev second i) below (s.syncStep dev second i below) := by
  unfold syncStep
  split
  · split
    · exact .syncNext
    · exact .syncHere
  · split
    · exact .syncEnd
    · exact .syncMiddle

theorem write_next (done : s.writeStep i below = some s') : Next s (.writeInode i) below s' := by
  simp only [writeStep] at done
  split at done
  · rw [← Option.some.inj done]
    exact .writeSkip
  next writes =>
    obtain ⟨sb, _, rest⟩ := Option.bind_eq_some_iff.mp done
    rw [← Option.some.inj rest]
    exact .writeLock fun zero => writes (.inr zero)

theorem resume_next {value : Option Addr} (done : s.resume value below = some s') :
    Next s (.ret value) below s' := by
  unfold World.resume at done
  -- what the frame below does with the value decides
  split at done
  · rw [← Option.some.inj done]
    exact .handOut
  · obtain ⟨b, rfl, rest⟩ := Option.bind_eq_some_iff.mp done
    rw [← Option.some.inj rest]
    split
    · exact .breadHit
    · exact .breadMiss
  · rw [← Option.some.inj done]
    exact .breadNull
  · obtain ⟨b, rfl, rest⟩ := Option.bind_eq_some_iff.mp done
    rw [← Option.some.inj rest]
    exact .writeDirty
  · rw [← Option.some.inj done]
    exact .writeUnlock
  next empty value failed inode unlock =>
    rw [← Option.some.inj done]
    cases below with
    | nil => exact absurd rfl empty
    | cons f below =>
      apply Next.resume
      · rintro rfl
        exact value below rfl
      · rintro i rfl
        exact inode i below rfl
      · rintro i rfl
        exact unlock i below rfl

/-- Every step of the running task is one of the outcomes. -/
theorem exec_next (done : s.exec fuel = some s') :
    ∃ f below, s.stack = f :: below ∧ ¬ s.Waits f ∧ Next s f below s' := by
  unfold World.exec at done
  split at done
  · cases done
  next f below top =>
    split at done
    · cases done
    next ready =>
      refine ⟨f, below, top, ready, ?_⟩
      -- each statement of a call has its own step
      cases f with
      | getblk dev block => exact getblk_next done
      | hashWait dev block b =>
        rw [← Option.some.inj done]
        unfold hashStep
        split
        next id => exact .matched id
        next other => exact .moved other
      | bufferWait dev block =>
        rw [← Option.some.inj done]
        exact .retry
      | victim dev block b =>
        have unlocked : (s.head b).lock = false := by simpa [Waits] using ready
        exact victim_next unlocked done
      | bread dev block =>
        rw [← Option.some.inj done]
        exact .bread
      | breadWait b =>
        rw [← Option.some.inj done]
        split
        · exact .breadDone
        · exact .breadError
      | brelse b =>
        simp only [brelseStep] at done
        split at done
        · cases done
        next used =>
          rw [← Option.some.inj done]
          exact .brelse used
      | syncTest dev second i =>
        rw [← Option.some.inj done]
        exact sync_next
      | syncWait dev second i =>
        rw [← Option.some.inj done]
        unfold syncWrite
        split
        · exact .syncWrite
        · exact .syncClean
      | syncInodes i =>
        rw [← Option.some.inj done]
        unfold inodeStep
        split
        · split
          · exact .inodeWrite
          · exact .inodeClean
        · exact .inodeEnd
      | writeInode i => exact write_next done
      | llRwBlock write b =>
        rw [← Option.some.inj done]
        unfold llRwStep
        split
        · exact .llSkip
        · split
          · exact .llSkip
          · exact .llLock
      | request b =>
        rw [← Option.some.inj done]
        exact .queued
      | ret value => exact resume_next done
      | breadValue | breadFailed | inodeValue | inodeDone => cases done

end Inversion

end World

end OperatorSystem.Fs
