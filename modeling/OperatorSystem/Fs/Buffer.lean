import Mathlib.Logic.Function.Basic
import OperatorSystem.Fs.BufferHead

/-!
# The buffer cache (`buffer.c`)

The heads lie one behind the other from `START_BUFFER_ADDR` on and are kept by
address. Loads and stores through a pointer go to the head at that address,
also where the pointer has left the array. The hash chains end in NULL, the
free list is a ring.
-/

namespace OperatorSystem.Fs

def startBufferAddr : Nat := 0x100000
def blockSize : Nat := 1024
def nrHash : Nat := 307

/-- `sizeof(BUFFER_HEAD)` -/
def sizeofHead : Nat := 36

/-- The address of the head with index `i`. -/
def headAddr (i : Nat) : Nat := startBufferAddr + sizeofHead * i

/-- `_HASHFN(dev, block)` -/
def hashfn (dev : BitVec 16) (block : BitVec 32) : Nat :=
  ((dev.setWidth 32 ^^^ block).setWidth 16).toNat % nrHash

structure Cache where
  heads : Addr → BufferHead
  /-- `BUFFER_FREE_LIST` -/
  freeList : Addr
  /-- `BUFFER_HASH_TABLE` -/
  hashTable : Nat → Option Addr
  nrBuffers : Nat

namespace Cache

def setHead (c : Cache) (a : Addr) (h : BufferHead) : Cache :=
  { c with heads := Function.update c.heads a h }

/-! ### `initBuffer` -/

/-- The head at `a` after its round of the loop, with its block at `b`. Its block
number is not set. -/
def freshHead (old : BufferHead) (a b : Addr) : BufferHead :=
  { old with
    dev := 0
    dirt := false
    count := 0
    lock := false
    uptodate := false
    next := none
    prev := none
    data := b
    prevFree := some (a - sizeofHead)
    nextFree := some (a + sizeofHead) }

/-- The stores of one round, as addresses and lengths in bytes. -/
def roundStores (a : Addr) : List (Addr × Nat) :=
  [(a, 4), (a + 8, 6), (a + 16, 4), (a + 20, 4), (a + 24, 4), (a + 28, 4), (a + 32, 4)]

/-- The loop of `initBuffer`. It returns the last `h`, and notes all stores. -/
def initLoop : Nat → Addr → Addr → Cache → List (Addr × Nat) → Option (Addr × Cache × List (Addr × Nat))
  | 0, _, _, _, _ => none
  | fuel + 1, b, h, c, stores =>
    let b := b - blockSize
    if h + sizeofHead ≤ b then
      initLoop fuel b (h + sizeofHead)
        { c.setHead h (freshHead (c.heads h) h b) with nrBuffers := c.nrBuffers + 1 }
        (roundStores h ++ stores)
    else some (h, c, stores)

/-- The end of `initBuffer`, with `h` at the last head. -/
def closeRing (c : Cache) (h : Addr) : Cache :=
  let c := { c with freeList := startBufferAddr }
  let c := c.setHead c.freeList { c.heads c.freeList with prevFree := some h }
  let c := c.setHead h { c.heads h with nextFree := some c.freeList }
  { c with hashTable := fun _ => none }

/-- `initBuffer`, with the stores it makes to buffer heads. -/
def initBuffer (c : Cache) (memSize : BitVec 32) : Option (Cache × List (Addr × Nat)) :=
  let memSize := if BitVec.slt 0x3C00000 memSize then 0x3C00000 else memSize
  let memSize := memSize &&& 0xFFFFF000
  if BitVec.slt memSize 0x400000 then none
  else do
    let bufMemEnd := (memSize.sdiv 4).toNat
    let (h, c, stores) ← initLoop bufMemEnd bufMemEnd startBufferAddr c []
    let h := h - sizeofHead
    return (c.closeRing h, (h + 32, 4) :: (startBufferAddr + 28, 4) :: stores)

/-! ### Searching -/

/-- The loop of `findBuffer` from the node `tmp` on; the fuel bounds the nodes it visits. -/
def findBufferLoop (c : Cache) (dev block : BitVec 32) : Nat → Option Addr → Option (Option Addr)
  | 0, _ => none
  | _ + 1, none => some none
  | fuel + 1, some tmp =>
    if (c.heads tmp).dev.setWidth 32 = dev ∧ (c.heads tmp).blockNr = block then some (some tmp)
    else findBufferLoop c dev block fuel (c.heads tmp).next

def findBuffer (c : Cache) (fuel : Nat) (dev block : BitVec 32) : Option (Option Addr) :=
  c.findBufferLoop dev block fuel (c.hashTable (hashfn (dev.setWidth 16) block))

/-- `BADNESS(bh)` -/
def badness (h : BufferHead) : Nat := h.dirt.toNat <<< 1 + h.lock.toNat

/-- `!bh || BADNESS(tmp) < BADNESS(bh)` -/
def better (c : Cache) (bh : Option Addr) (tmp : Addr) : Bool :=
  match bh with
  | none => true
  | some b => badness (c.heads tmp) < badness (c.heads b)

/-- The search for a victim in `getblk`, from the node `tmp` of the free list on.
A NULL link in the list ends it without a result. -/
def victimLoop (c : Cache) : Nat → Addr → Option Addr → Option (Option Addr)
  | 0, _, _ => none
  | fuel + 1, tmp, bh =>
    let chosen := (c.heads tmp).count = 0 ∧ c.better bh tmp
    let bh := if chosen then some tmp else bh
    if chosen ∧ badness (c.heads tmp) = 0 then some bh
    else
      match (c.heads tmp).nextFree with
      | none => none
      | some next => if next = c.freeList then some bh else victimLoop c fuel next bh

def victim (c : Cache) (fuel : Nat) : Option (Option Addr) := c.victimLoop fuel c.freeList none

/-! ### Claiming a buffer -/

/-- A store through a pointer. One through NULL goes to the bottom of memory and
leaves all heads alone. -/
def store (c : Cache) (p : Option Addr) (f : BufferHead → BufferHead) : Cache :=
  match p with
  | none => c
  | some a => c.setHead a (f (c.heads a))

/-- The bucket of a head. -/
def bucket (c : Cache) (bh : Addr) : Nat := hashfn (c.heads bh).dev (c.heads bh).blockNr

/-- `if (p) ...` makes the first two stores of `removeFromQueues` conditional, as `store` is. -/
def removeFromQueues (c : Cache) (bh : Addr) : Option Cache :=
  let c := c.store (c.heads bh).next fun h => { h with prev := (c.heads bh).prev }
  let c := c.store (c.heads bh).prev fun h => { h with next := (c.heads bh).next }
  let c :=
    if c.hashTable (c.bucket bh) = some bh then
      { c with hashTable := Function.update c.hashTable (c.bucket bh) (c.heads bh).next }
    else c
  match (c.heads bh).prevFree, (c.heads bh).nextFree with
  | some prevFree, some nextFree =>
    let c := c.setHead prevFree { c.heads prevFree with nextFree := some nextFree }
    let c := c.setHead nextFree { c.heads nextFree with prevFree := some prevFree }
    some (if c.freeList = bh then { c with freeList := nextFree } else c)
  -- "Free block list corrupted"
  | _, _ => none

def insertIntoQueues (c : Cache) (bh : Addr) : Cache :=
  let c := c.setHead bh { c.heads bh with nextFree := some c.freeList }
  let c := c.setHead bh { c.heads bh with prevFree := (c.heads c.freeList).prevFree }
  let c := c.store (c.heads c.freeList).prevFree fun h => { h with nextFree := some bh }
  let c := c.setHead c.freeList { c.heads c.freeList with prevFree := some bh }
  let c := c.setHead bh { c.heads bh with prev := none, next := none }
  if (c.heads bh).dev = 0 then c
  else
    let c := c.setHead bh { c.heads bh with next := c.hashTable (c.bucket bh) }
    let c := { c with hashTable := Function.update c.hashTable (c.bucket bh) (some bh) }
    c.store (c.heads bh).next fun h => { h with prev := some bh }

/-- The end of `getblk`, for the victim `bh`. -/
def claim (c : Cache) (bh : Addr) (dev block : BitVec 32) : Option Cache := do
  let c := c.setHead bh { c.heads bh with count := 1, dirt := false, uptodate := false }
  let c ← c.removeFromQueues bh
  let c := c.setHead bh { c.heads bh with dev := dev.setWidth 16, blockNr := block }
  return c.insertIntoQueues bh

end Cache

end OperatorSystem.Fs
