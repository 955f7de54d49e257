import OperatorSystem.Fs.Queues
import OperatorSystem.Library.Preemption

/-!
# The buffer cache under preemption (`buffer.c`)

`getblk` statement by statement, for tasks that run it at the same time. Every
`waitOnBuffer` ends with `enableInt`. Between its last test of `b_count` and
`b_count = 1` a task relies on a buffer that any other task may still find, and
up to the end of `insertIntoQueues` on one that has half of its new identity.
Of `syncDev` and the callers of `getblk` the module has the calls of `getblk`
and `brelse` they make; the flags of the buffers change at any time.
-/

namespace OperatorSystem.Fs

open Preemption

/-- The next statement at the end of `getblk`; `remove` and `insert` count those of
`removeFromQueues` and `insertIntoQueues`. -/
inductive ClaimPc
  | count
  | dirt
  | uptodate
  | remove (k : Nat)
  | dev
  | blockNr
  | insert (k : Nat)

/-- The next statement of a call, with its variables. -/
inductive Call
  /-- `getHashTable` or `getblk` at `tmp = HASH(dev, block)` -/
  | hash (dev : BitVec 16) (block : BitVec 32)
  /-- `findBuffer` for `getHashTable` at a node of the chain -/
  | lookup (dev : BitVec 16) (block : BitVec 32) (tmp : Option Addr)
  | lookupNext (dev : BitVec 16) (block : BitVec 32) (tmp : Addr)
  /-- `bh->b_count++` -/
  | raise (dev : BitVec 16) (block : BitVec 32) (b : Addr)
  | hashWait (dev : BitVec 16) (block : BitVec 32) (b : Addr)
  | check (dev : BitVec 16) (block : BitVec 32) (b : Addr)
  /-- `bh->b_count--` -/
  | lower (dev : BitVec 16) (block : BitVec 32) (b : Addr)
  /-- the loop over the free list, at its test of `b_count` -/
  | scan (dev : BitVec 16) (block : BitVec 32) (tmp : Addr) (bh : Option Addr)
  /-- the comparison of the `BADNESS` -/
  | weigh (dev : BitVec 16) (block : BitVec 32) (tmp : Addr) (bh : Option Addr)
  /-- `if (!BADNESS(tmp)) break`, with `tmp` in `bh` -/
  | best (dev : BitVec 16) (block : BitVec 32) (tmp : Addr)
  | scanNext (dev : BitVec 16) (block : BitVec 32) (tmp : Addr) (bh : Option Addr)
  /-- asleep on `BUFFER_WAIT` -/
  | bufferWait (dev : BitVec 16) (block : BitVec 32)
  /-- `waitOnBuffer` for the victim -/
  | wait (dev : BitVec 16) (block : BitVec 32) (b : Addr)
  /-- `if (bh->b_count) goto repeat` -/
  | test (dev : BitVec 16) (block : BitVec 32) (b : Addr)
  /-- `while (bh->b_dirt)` -/
  | dirty (dev : BitVec 16) (block : BitVec 32) (b : Addr)
  /-- in the call of `syncDev` -/
  | sync (dev : BitVec 16) (block : BitVec 32) (b : Addr)
  /-- the second `findBuffer` -/
  | rehash (dev : BitVec 16) (block : BitVec 32) (b : Addr)
  | find (dev : BitVec 16) (block : BitVec 32) (b : Addr) (tmp : Option Addr)
  | findNext (dev : BitVec 16) (block : BitVec 32) (b : Addr) (tmp : Addr)
  | claim (dev : BitVec 16) (block : BitVec 32) (b : Addr) (pc : ClaimPc)
  /-- `brelse` in `waitOnBuffer` -/
  | release (b : Addr)
  /-- `if (!(buf->b_count--))` -/
  | drop (b : Addr)

/-- A task in the buffer cache. -/
structure Client where
  /-- The calls, the innermost first. -/
  stack : List Call
  /-- What `getblk` has handed out and `brelse` has not taken back, with the block asked for. -/
  held : List (Addr × BitVec 16 × BitVec 32)
  /-- the interrupt flag -/
  intr : Bool

/-! ### The queues, statement by statement -/

namespace Cache

/-- `removeFromQueues` on the hash chain. -/
def unchainStatements (bh : Addr) : List (Cache → Option Cache) :=
  [fun c => some (c.store (c.heads bh).next fun h => { h with prev := (c.heads bh).prev }),
    fun c => some (c.store (c.heads bh).prev fun h => { h with next := (c.heads bh).next }),
    fun c => some (if c.hashTable (c.bucket bh) = some bh then
      { c with hashTable := Function.update c.hashTable (c.bucket bh) (c.heads bh).next } else c)]

/-- `removeFromQueues` on the free list. -/
def unlinkStatements (bh : Addr) : List (Cache → Option Cache) :=
  -- "Free block list corrupted"
  [fun c => if (c.heads bh).prevFree = none ∨ (c.heads bh).nextFree = none then none else some c,
    fun c => some (c.store (c.heads bh).prevFree fun h => { h with nextFree := (c.heads bh).nextFree }),
    fun c => some (c.store (c.heads bh).nextFree fun h => { h with prevFree := (c.heads bh).prevFree }),
    fun c => if c.freeList = bh then (c.heads bh).nextFree.map fun next => { c with freeList := next } else some c]

def removeStatements (bh : Addr) : List (Cache → Option Cache) := unchainStatements bh ++ unlinkStatements bh

/-- `insertIntoQueues` on the free list. -/
def linkStatements (bh : Addr) : List (Cache → Option Cache) :=
  [fun c => some (c.setHead bh { c.heads bh with nextFree := some c.freeList }),
    fun c => some (c.setHead bh { c.heads bh with prevFree := (c.heads c.freeList).prevFree }),
    fun c => some (c.store (c.heads c.freeList).prevFree fun h => { h with nextFree := some bh }),
    fun c => some (c.setHead c.freeList { c.heads c.freeList with prevFree := some bh })]

/-- `insertIntoQueues` on the hash chain; the last three are behind `if (!bh->b_dev) return`. -/
def chainStatements (bh : Addr) : List (Cache → Option Cache) :=
  [fun c => some (c.setHead bh { c.heads bh with prev := none }),
    fun c => some (c.setHead bh { c.heads bh with next := none }),
    fun c => some (if (c.heads bh).dev = 0 then c else
      c.setHead bh { c.heads bh with next := c.hashTable (c.bucket bh) }),
    fun c => some (if (c.heads bh).dev = 0 then c else
      { c with hashTable := Function.update c.hashTable (c.bucket bh) (some bh) }),
    fun c => some (if (c.heads bh).dev = 0 then c else
      c.store (c.heads bh).next fun h => { h with prev := some bh })]

def insertStatements (bh : Addr) : List (Cache → Option Cache) := linkStatements bh ++ chainStatements bh

/-- One statement after the other. -/
def statements (l : List (Cache → Option Cache)) (c : Cache) : Option Cache := l.foldlM (fun c f => f c) c

/-- The counts and the identities are the same. -/
def SameIds (c c' : Cache) : Prop :=
  ∀ a, (c'.heads a).count = (c.heads a).count ∧ (c'.heads a).dev = (c.heads a).dev ∧
    (c'.heads a).blockNr = (c.heads a).blockNr

theorem sameIds_store (c : Cache) (p : Option Addr) {f : BufferHead → BufferHead}
    (same : ∀ h, (f h).count = h.count ∧ (f h).dev = h.dev ∧ (f h).blockNr = h.blockNr) :
    SameIds c (c.store p f) := by
  intro a
  rw [store_heads]
  split
  · exact same _
  · exact ⟨rfl, rfl, rfl⟩

theorem sameIds_setHead (c : Cache) (b : Addr) {h : BufferHead} (same : h.count = (c.heads b).count ∧
    h.dev = (c.heads b).dev ∧ h.blockNr = (c.heads b).blockNr) : SameIds c (c.setHead b h) := by
  intro a
  rw [setHead_heads]
  split
  next here =>
    rw [here]
    exact same
  next => exact ⟨rfl, rfl, rfl⟩

theorem sameIds_refl (c : Cache) : SameIds c c := fun _ => ⟨rfl, rfl, rfl⟩

/-- `removeFromQueues` keeps the counts and the identities. -/
theorem sameIds_remove {bh : Addr} {f : Cache → Option Cache} {c c' : Cache} (member : f ∈ removeStatements bh)
    (done : f c = some c') : SameIds c c' := by
  simp only [removeStatements, unchainStatements, unlinkStatements, List.cons_append, List.nil_append, List.mem_cons,
    List.not_mem_nil, or_false] at member
  -- one case for each statement
  rcases member with rfl | rfl | rfl | rfl | rfl | rfl | rfl
  · obtain rfl := Option.some.inj done
    exact sameIds_store c _ fun _ => ⟨rfl, rfl, rfl⟩
  · obtain rfl := Option.some.inj done
    exact sameIds_store c _ fun _ => ⟨rfl, rfl, rfl⟩
  · obtain rfl := Option.some.inj done
    split <;> exact sameIds_refl c
  · dsimp only at done
    split at done
    · cases done
    · obtain rfl := Option.some.inj done
      exact sameIds_refl c
  · obtain rfl := Option.some.inj done
    exact sameIds_store c _ fun _ => ⟨rfl, rfl, rfl⟩
  · obtain rfl := Option.some.inj done
    exact sameIds_store c _ fun _ => ⟨rfl, rfl, rfl⟩
  · dsimp only at done
    split at done
    · obtain ⟨next, _, rfl⟩ := Option.map_eq_some_iff.mp done
      exact sameIds_refl c
    · obtain rfl := Option.some.inj done
      exact sameIds_refl c

/-- `insertIntoQueues` keeps the counts and the identities. -/
theorem sameIds_insert {bh : Addr} {f : Cache → Option Cache} {c c' : Cache} (member : f ∈ insertStatements bh)
    (done : f c = some c') : SameIds c c' := by
  simp only [insertStatements, linkStatements, chainStatements, List.cons_append, List.nil_append, List.mem_cons,
    List.not_mem_nil, or_false] at member
  rcases member with rfl | rfl | rfl | rfl | rfl | rfl | rfl | rfl | rfl <;> obtain rfl := Option.some.inj done
  · exact sameIds_setHead c bh ⟨rfl, rfl, rfl⟩
  · exact sameIds_setHead c bh ⟨rfl, rfl, rfl⟩
  · exact sameIds_store c _ fun _ => ⟨rfl, rfl, rfl⟩
  · exact sameIds_setHead c c.freeList ⟨rfl, rfl, rfl⟩
  · exact sameIds_setHead c bh ⟨rfl, rfl, rfl⟩
  · exact sameIds_setHead c bh ⟨rfl, rfl, rfl⟩
  · split
    · exact sameIds_refl c
    · exact sameIds_setHead c bh ⟨rfl, rfl, rfl⟩
  · split <;> exact sameIds_refl c
  · split
    · exact sameIds_refl c
    · exact sameIds_store c _ fun _ => ⟨rfl, rfl, rfl⟩

theorem setHead_setHead (c : Cache) (a : Addr) (h h' : BufferHead) : (c.setHead a h).setHead a h' = c.setHead a h' := by
  simp [setHead]

theorem setHead_self (c : Cache) (a : Addr) (h : BufferHead) : (c.setHead a h).heads a = h := Function.update_self ..

/-- The statements that unlink a buffer need both of its free links. -/
theorem statements_unlink_none (c : Cache) (bh : Addr)
    (broken : (c.heads bh).prevFree = none ∨ (c.heads bh).nextFree = none) :
    statements (unlinkStatements bh) c = none := by
  simp only [statements, unlinkStatements, List.foldlM_cons, List.foldlM_nil, Option.bind_eq_bind, if_pos broken,
    Option.bind_none]

/-- With both links they take the buffer out of the ring. -/
theorem statements_unlink_some {c : Cache} {bh prevFree nextFree : Addr}
    (prev : (c.heads bh).prevFree = some prevFree) (next : (c.heads bh).nextFree = some nextFree) :
    statements (unlinkStatements bh) c =
      let c := c.setHead prevFree { c.heads prevFree with nextFree := some nextFree }
      let c := c.setHead nextFree { c.heads nextFree with prevFree := some prevFree }
      some (if c.freeList = bh then { c with freeList := nextFree } else c) := by
  simp only [statements, unlinkStatements, List.foldlM_cons, List.foldlM_nil, Option.bind_eq_bind]
  -- the stores reach `bh` itself when it is its own neighbour
  have next₁ : ((c.setHead prevFree { c.heads prevFree with nextFree := some nextFree }).heads bh).nextFree =
      some nextFree := by
    rw [setHead_heads]
    split
    next => rfl
    next => exact next
  have prev₁ : ((c.setHead prevFree { c.heads prevFree with nextFree := some nextFree }).heads bh).prevFree =
      some prevFree := by
    rw [setHead_heads]
    split
    next here =>
      subst here
      exact prev
    next => exact prev
  have next₂ : ∀ c : Cache, (c.heads bh).nextFree = some nextFree →
      ((c.setHead nextFree { c.heads nextFree with prevFree := some prevFree }).heads bh).nextFree =
        some nextFree := by
    intro c same
    rw [setHead_heads]
    split
    next here =>
      subst here
      exact same
    next => exact same
  have proper : ¬ (some prevFree = none ∨ some nextFree = none) := by simp
  simp only [if_neg proper, Option.bind_some, prev, next, store, next₁, prev₁, next₂ _ next₁, Option.map_some]
  split <;> rfl

theorem statements_remove (c : Cache) (bh : Addr) : statements (removeStatements bh) c = c.removeFromQueues bh := by
  rw [statements, removeStatements, List.foldlM_append, removeFromQueues]
  dsimp only
  split
  next prevFree nextFree prev next => exact statements_unlink_some prev next
  next broken =>
    refine statements_unlink_none _ bh ?_
    by_contra linked
    obtain ⟨prev, next⟩ := not_or.mp linked
    obtain ⟨prevFree, prev⟩ := Option.ne_none_iff_exists'.mp prev
    obtain ⟨nextFree, next⟩ := Option.ne_none_iff_exists'.mp next
    exact broken prevFree nextFree prev next

/-- The first half of `insertIntoQueues`: the ring. -/
def linked (c : Cache) (bh : Addr) : Cache :=
  let c := c.setHead bh { c.heads bh with nextFree := some c.freeList }
  let c := c.setHead bh { c.heads bh with prevFree := (c.heads c.freeList).prevFree }
  let c := c.store (c.heads c.freeList).prevFree fun h => { h with nextFree := some bh }
  c.setHead c.freeList { c.heads c.freeList with prevFree := some bh }

/-- The second half: the chain. -/
def chained (c : Cache) (bh : Addr) : Cache :=
  let c := c.setHead bh { c.heads bh with prev := none, next := none }
  if (c.heads bh).dev = 0 then c
  else
    let c := c.setHead bh { c.heads bh with next := c.hashTable (c.bucket bh) }
    let c := { c with hashTable := Function.update c.hashTable (c.bucket bh) (some bh) }
    c.store (c.heads bh).next fun h => { h with prev := some bh }

theorem insertIntoQueues_eq (c : Cache) (bh : Addr) : c.insertIntoQueues bh = (c.linked bh).chained bh := rfl

theorem statements_link (c : Cache) (bh : Addr) : statements (linkStatements bh) c = some (c.linked bh) := rfl

theorem statements_chain (c : Cache) (bh : Addr) : statements (chainStatements bh) c = some (c.chained bh) := by
  simp only [statements, chainStatements, List.foldlM_cons, List.foldlM_nil, Option.bind_eq_bind, Option.bind_some,
    setHead_setHead, setHead_self, chained]
  split
  next unused =>
    simp only [if_pos unused, setHead_self]
    rfl
  next used =>
    simp only [if_neg used, setHead_self]
    rfl

theorem statements_insert (c : Cache) (bh : Addr) :
    statements (insertStatements bh) c = some (c.insertIntoQueues bh) := by
  rw [statements, insertStatements, List.foldlM_append, ← statements, statements_link, Option.bind_eq_bind,
    Option.bind_some, ← statements, statements_chain, insertIntoQueues_eq]

end Cache

/-! ### The calls, statement by statement -/

/-- `bh->b_dev == dev && bh->b_block_nr == block` -/
def Matches (h : BufferHead) (dev : BitVec 16) (block : BitVec 32) : Prop := h.dev = dev ∧ h.blockNr = block

instance (h : BufferHead) (dev : BitVec 16) (block : BitVec 32) : Decidable (Matches h dev block) := by
  unfold Matches
  infer_instance

namespace Client

/-- The innermost call goes on to `f`. -/
def goOn (t : Client) (f : Call) : Client := { t with stack := f :: t.stack.tail }

/-- `getblk` returns `b`. -/
def handOut (t : Client) (b : Addr) (dev : BitVec 16) (block : BitVec 32) : Client :=
  { t with stack := t.stack.tail, held := (b, dev, block) :: t.held }

/-- A statement at the end of `getblk`. -/
def claimStep (c : Cache) (t : Client) (dev : BitVec 16) (block : BitVec 32) (b : Addr) :
    ClaimPc → Option (Cache × Client)
  | .count => some (c.setHead b { c.heads b with count := 1 }, t.goOn (.claim dev block b .dirt))
  | .dirt => some (c.setHead b { c.heads b with dirt := false }, t.goOn (.claim dev block b .uptodate))
  | .uptodate => some (c.setHead b { c.heads b with uptodate := false }, t.goOn (.claim dev block b (.remove 0)))
  | .remove k =>
    match (Cache.removeStatements b)[k]? with
    | none => some (c, t.goOn (.claim dev block b .dev))
    | some statement => (statement c).map fun c => (c, t.goOn (.claim dev block b (.remove (k + 1))))
  | .dev => some (c.setHead b { c.heads b with dev := dev }, t.goOn (.claim dev block b .blockNr))
  | .blockNr => some (c.setHead b { c.heads b with blockNr := block }, t.goOn (.claim dev block b (.insert 0)))
  | .insert k =>
    match (Cache.insertStatements b)[k]? with
    | none => some (c, t.handOut b dev block)
    | some statement => (statement c).map fun c => (c, t.goOn (.claim dev block b (.insert (k + 1))))

/-- The next statement of the innermost call. -/
def exec (c : Cache) (t : Client) : Option (Cache × Client) :=
  match t.stack.head? with
  | none => none
  | some (.hash dev block) => some (c, t.goOn (.lookup dev block (c.hashTable (hashfn dev block))))
  | some (.lookup dev block none) => some (c, t.goOn (.scan dev block c.freeList none))
  | some (.lookup dev block (some tmp)) =>
    if Matches (c.heads tmp) dev block then some (c, t.goOn (.raise dev block tmp))
    else some (c, t.goOn (.lookupNext dev block tmp))
  | some (.lookupNext dev block tmp) => some (c, t.goOn (.lookup dev block (c.heads tmp).next))
  | some (.raise dev block b) =>
    some (c.setHead b { c.heads b with count := (c.heads b).count + 1 }, t.goOn (.hashWait dev block b))
  | some (.hashWait dev block b) =>
    -- `waitOnBuffer` sleeps, or ends with `enableInt`
    if (c.heads b).lock then none else some (c, { t.goOn (.check dev block b) with intr := true })
  | some (.check dev block b) =>
    if Matches (c.heads b) dev block then some (c, t.handOut b dev block) else some (c, t.goOn (.lower dev block b))
  | some (.lower dev block b) =>
    some (c.setHead b { c.heads b with count := (c.heads b).count - 1 }, t.goOn (.hash dev block))
  | some (.scan dev block tmp bh) =>
    if (c.heads tmp).count ≠ 0 then some (c, t.goOn (.scanNext dev block tmp bh))
    else some (c, t.goOn (.weigh dev block tmp bh))
  | some (.weigh dev block tmp bh) =>
    if c.better bh tmp then some (c, t.goOn (.best dev block tmp)) else some (c, t.goOn (.scanNext dev block tmp bh))
  | some (.best dev block tmp) =>
    if Cache.badness (c.heads tmp) = 0 then some (c, t.goOn (.wait dev block tmp))
    else some (c, t.goOn (.scanNext dev block tmp (some tmp)))
  | some (.scanNext dev block tmp bh) =>
    match (c.heads tmp).nextFree with
    | none => none
    | some next =>
      if next ≠ c.freeList then some (c, t.goOn (.scan dev block next bh))
      else
        match bh with
        | none => some (c, t.goOn (.bufferWait dev block))
        | some b => some (c, t.goOn (.wait dev block b))
  | some (.bufferWait dev block) => some (c, t.goOn (.hash dev block))
  | some (.wait dev block b) =>
    if (c.heads b).lock then none else some (c, { t.goOn (.test dev block b) with intr := true })
  | some (.test dev block b) =>
    if (c.heads b).count ≠ 0 then some (c, t.goOn (.hash dev block)) else some (c, t.goOn (.dirty dev block b))
  | some (.dirty dev block b) =>
    if (c.heads b).dirt then some (c, t.goOn (.sync dev block b)) else some (c, t.goOn (.rehash dev block b))
  | some (.sync ..) => none
  | some (.rehash dev block b) => some (c, t.goOn (.find dev block b (c.hashTable (hashfn dev block))))
  | some (.find dev block b none) => some (c, t.goOn (.claim dev block b .count))
  | some (.find dev block b (some tmp)) =>
    if Matches (c.heads tmp) dev block then some (c, t.goOn (.hash dev block))
    else some (c, t.goOn (.findNext dev block b tmp))
  | some (.findNext dev block b tmp) => some (c, t.goOn (.find dev block b (c.heads tmp).next))
  | some (.claim dev block b pc) => t.claimStep c dev block b pc
  | some (.release b) => if (c.heads b).lock then none else some (c, { t.goOn (.drop b) with intr := true })
  | some (.drop b) =>
    -- "Trying to free free buffer"
    if (c.heads b).count = 0 then none
    else some (c.setHead b { c.heads b with count := (c.heads b).count - 1 }, { t with stack := t.stack.tail })

/-- The task is outside the functions of this module, or in `syncDev`. -/
def Outside (t : Client) : Prop := ∀ f ∈ t.stack, ∃ dev block b, f = .sync dev block b

/-- What a task calls from outside, and the return from `syncDev`. -/
inductive Calls : Client → Client → Prop
  | getblk {t : Client} {dev : BitVec 16} {block : BitVec 32} (outside : t.Outside) (intr : Bool) :
      Calls t { t with stack := .hash dev block :: t.stack, intr }
  | brelse {t : Client} {b : Addr} {dev : BitVec 16} {block : BitVec 32} (outside : t.Outside)
      (holds : (b, dev, block) ∈ t.held) (intr : Bool) :
      Calls t { stack := .release b :: t.stack, held := t.held.erase (b, dev, block), intr }
  | synced {t : Client} {dev : BitVec 16} {block : BitVec 32} {b : Addr} {below : List Call}
      (inside : t.stack = .sync dev block b :: below) (intr : Bool) :
      Calls t { t with stack := .wait dev block b :: below, intr }

/-- The call is in `sleepOn`. -/
def Sleeps (c : Cache) (t : Client) : Prop :=
  match t.stack.head? with
  | some (.hashWait _ _ b) | some (.wait _ _ b) | some (.release b) => (c.heads b).lock = true
  | some (.bufferWait ..) | some (.sync ..) => True
  | _ => False

/-- Only the flags of the buffers have changed. -/
structure Flagged (c c' : Cache) : Prop where
  freeList : c'.freeList = c.freeList
  hashTable : c'.hashTable = c.hashTable
  nrBuffers : c'.nrBuffers = c.nrBuffers
  heads : ∀ a, ∃ lock dirt uptodate, c'.heads a = { c.heads a with lock, dirt, uptodate }

def code : Preemption.Code Cache Client where
  exec := exec
  Calls _ := Calls
  Sleeps := Sleeps
  enabled t := t.intr
  Interrupts := Flagged

/-! ### References and windows -/

end Client

namespace Call

/-- How often the call is counted in `b_count` of `b`. -/
def refs (b : Addr) : Call → Nat
  | .hashWait _ _ a | .check _ _ a | .lower _ _ a | .release a | .drop a => if a = b then 1 else 0
  | .claim _ _ _ .count => 0
  | .claim _ _ a _ => if a = b then 1 else 0
  | _ => 0

/-- The call is between its last test of `b_count` and the end of `getblk`. -/
def Inside : Call → Prop
  | .dirty .. | .rehash .. | .find .. | .findNext .. | .claim .. => True
  | _ => False

instance : (f : Call) → Decidable f.Inside
  | .dirty .. | .rehash .. | .find .. | .findNext .. | .claim .. => isTrue trivial
  | .hash .. | .lookup .. | .lookupNext .. | .raise .. | .hashWait .. | .check .. | .lower .. | .scan .. | .weigh ..
  | .best .. | .scanNext .. | .bufferWait .. | .wait .. | .test .. | .sync .. | .release _ | .drop _ => isFalse id

/-- What the call knows of its buffer inside the window. -/
def Sound (c : Cache) : Call → Prop
  | .dirty _ _ b | .rehash _ _ b | .find _ _ b _ | .findNext _ _ b _ | .claim _ _ b .count => (c.heads b).count = 0
  | .claim dev _ b .blockNr => (c.heads b).count = 1 ∧ (c.heads b).dev = dev
  | .claim dev block b (.insert _) => (c.heads b).count = 1 ∧ Matches (c.heads b) dev block
  | .claim _ _ b _ => (c.heads b).count = 1
  | _ => True

end Call

namespace Client

/-- How often the task is counted in `b_count` of `b`. -/
def refs (b : Addr) (t : Client) : Nat := (t.stack.map (Call.refs b)).sum + (t.held.map Prod.fst).count b

def Window (t : Client) : Prop := ∃ f, t.stack.head? = some f ∧ f.Inside

instance (t : Client) : Decidable (Window t) :=
  decidable_of_iff (t.stack.head?.any (fun f => decide f.Inside) = true) (by simp [Window, Option.any_eq_true])

structure Sound (c : Cache) (t : Client) : Prop where
  top : ∀ f, t.stack.head? = some f → f.Sound c
  below : ∀ f ∈ t.stack.tail, ∃ dev block b, f = .sync dev block b

/-- What a statement can do to the counts, to the identities and to what its task holds. -/
inductive Effect (c : Cache) (t : Client) : Cache → Client → Prop
  | quiet {t' : Client} (refs : ∀ b, t'.refs b = t.refs b) (held : t'.held = t.held) (sound : t'.Sound c) :
      Effect c t c t'
  | count {t' : Client} {b : Addr} {n : BitVec 8} (moved : n.toNat + t.refs b = (c.heads b).count.toNat + t'.refs b)
      (others : ∀ a, a ≠ b → t'.refs a = t.refs a) (held : t'.held = t.held)
      (sound : t'.Sound (c.setHead b { c.heads b with count := n })) :
      Effect c t (c.setHead b { c.heads b with count := n }) t'
  | handOut {b : Addr} {dev : BitVec 16} {block : BitVec 32} (id : Matches (c.heads b) dev block)
      (refs : ∀ a, (t.handOut b dev block).refs a = t.refs a) (sound : (t.handOut b dev block).Sound c) :
      Effect c t c (t.handOut b dev block)
  | claim {c' : Cache} {t' : Client} {b : Addr} (counts : ∀ a, (c'.heads a).count = (c.heads a).count)
      (ids : ∀ a, a ≠ b → (c'.heads a).dev = (c.heads a).dev ∧ (c'.heads a).blockNr = (c.heads a).blockNr)
      (one : (c.heads b).count = 1) (mine : 1 + (t.held.map Prod.fst).count b ≤ t.refs b)
      (refs : ∀ a, t'.refs a = t.refs a) (held : t'.held = t.held) (sound : t'.Sound c') : Effect c t c' t'

section Effects

variable {c c' : Cache} {t t' : Client} {f g : Call} {below : List Call} {b : Addr} {dev : BitVec 16}
  {block : BitVec 32}

theorem refs_cons (top : t.stack = f :: below) (b : Addr) :
    t.refs b = f.refs b + ((below.map (Call.refs b)).sum + (t.held.map Prod.fst).count b) := by
  rw [refs, top, List.map_cons, List.sum_cons, Nat.add_assoc]

theorem refs_goOn (top : t.stack = f :: below) (g : Call) (intr : Bool) (b : Addr) :
    ({ t.goOn g with intr } : Client).refs b + f.refs b = t.refs b + g.refs b := by
  have after : ({ t.goOn g with intr } : Client).stack = g :: below := by
    rw [goOn, top, List.tail_cons]
  rw [refs_cons top, refs_cons after]
  change g.refs b + (_ + (t.held.map Prod.fst).count b) + _ = _
  omega

theorem Sound.goOn (sound : t.Sound c) (intr : Bool) (known : g.Sound c') :
    ({ t.goOn g with intr } : Client).Sound c' := by
  constructor
  · intro h first
    obtain rfl := Option.some.inj first
    exact known
  · intro h member
    have inside : h ∈ t.stack.tail := member
    exact sound.below h inside

/-- A call goes on without a change. -/
theorem Effect.goOn (sound : t.Sound c) (top : t.stack = f :: below) (same : ∀ b, g.refs b = f.refs b)
    (known : g.Sound c) : Effect c t c (t.goOn g) := by
  refine .quiet (fun b => ?_) rfl (sound.goOn t.intr known)
  have moved := refs_goOn top g t.intr b
  have equal := same b
  change (t.goOn g).refs b + _ = _ at moved
  omega

/-- A call goes on behind a wait. -/
theorem Effect.waited (sound : t.Sound c) (top : t.stack = f :: below) (same : ∀ b, g.refs b = f.refs b)
    (known : g.Sound c) : Effect c t c { t.goOn g with intr := true } := by
  refine .quiet (fun b => ?_) rfl (sound.goOn true known)
  have moved := refs_goOn top g true b
  have equal := same b
  omega

/-- A call goes on and changes a count. -/
theorem Effect.recount {n : BitVec 8} (sound : t.Sound c) (top : t.stack = f :: below)
    (moved : n.toNat + f.refs b = (c.heads b).count.toNat + g.refs b) (others : ∀ a, a ≠ b → g.refs a = f.refs a)
    (known : g.Sound (c.setHead b { c.heads b with count := n })) :
    Effect c t (c.setHead b { c.heads b with count := n }) (t.goOn g) := by
  refine .count ?_ (fun a other => ?_) rfl (sound.goOn t.intr known)
  · have change := refs_goOn top g t.intr b
    change (t.goOn g).refs b + _ = _ at change
    omega
  · have change := refs_goOn top g t.intr a
    change (t.goOn g).refs a + _ = _ at change
    have equal := others a other
    omega

/-- The end of a call that has a reference to the buffer. -/
theorem Effect.returned (sound : t.Sound c) (top : t.stack = f :: below)
    (counted : ∀ a, f.refs a = if b = a then 1 else 0) (id : Matches (c.heads b) dev block) :
    Effect c t c (t.handOut b dev block) := by
  have tail : (t.handOut b dev block).stack = below := by rw [Client.handOut, top, List.tail_cons]
  -- only syncs are below the call that returns
  have outside : ∀ g ∈ below, ∃ dev block b, g = .sync dev block b := by
    intro g member
    apply sound.below g
    rw [top]
    exact member
  refine .handOut id (fun a => ?_) ⟨fun g first => ?_, fun g member => ?_⟩
  · rw [refs_cons top, counted, refs, tail]
    change _ + (b :: t.held.map Prod.fst).count a = _
    rw [List.count_cons]
    by_cases here : b = a
    · simp [here]
      omega
    · simp [here]
  · rw [tail] at first
    obtain ⟨_, _, _, rfl⟩ := outside g (List.mem_of_mem_head? first)
    exact trivial
  · rw [tail] at member
    exact outside g (List.mem_of_mem_tail member)

theorem Effect.dropped (sound : t.Sound c) (top : t.stack = .drop b :: below)
    (counted : (Call.drop b).refs b + ((below.map (Call.refs b)).sum + (t.held.map Prod.fst).count b) ≤
      (c.heads b).count.toNat) :
    Effect c t (c.setHead b { c.heads b with count := (c.heads b).count - 1 }) { t with stack := t.stack.tail } := by
  have tail : t.stack.tail = below := by rw [top, List.tail_cons]
  have outside := sound.below
  rw [tail] at outside ⊢
  simp only [Call.refs, if_true] at counted
  refine .count ?_ (fun a other => ?_) rfl ⟨fun g first => ?_, fun g member => ?_⟩
  · rw [toNat_pred (by omega), refs_cons top]
    simp only [refs, Call.refs, if_true]
    omega
  · rw [refs_cons top]
    simp [refs, Call.refs, Ne.symm other]
  · obtain ⟨_, _, _, rfl⟩ := outside g (List.mem_of_mem_head? first)
    exact trivial
  · exact outside g (List.mem_of_mem_tail member)

theorem effect_claimStep {pc : ClaimPc} (sound : t.Sound c) (top : t.stack = .claim dev block b pc :: below)
    (done : t.claimStep c dev block b pc = some (c', t')) : Effect c t c' t' := by
  have known : (Call.claim dev block b pc).Sound c := sound.top _ (by rw [top]; rfl)
  have later : ∀ {c' : Cache} {pc' : ClaimPc}, (∀ a, (Call.claim dev block b pc).refs a = if b = a then 1 else 0) →
      (∀ a, (Call.claim dev block b pc').refs a = if b = a then 1 else 0) → (c.heads b).count = 1 →
      (∀ a, (c'.heads a).count = (c.heads a).count) →
      (∀ a, a ≠ b → (c'.heads a).dev = (c.heads a).dev ∧ (c'.heads a).blockNr = (c.heads a).blockNr) →
      (Call.claim dev block b pc').Sound c' → Effect c t c' (t.goOn (.claim dev block b pc')) := by
    intro c' pc' before after one counts ids known'
    refine .claim counts ids one ?_ (fun a => ?_) rfl (sound.goOn t.intr known')
    · rw [refs_cons top, before b, if_pos rfl]
      omega
    · have moved := refs_goOn top (.claim dev block b pc') t.intr a
      rw [before a, after a] at moved
      exact Nat.add_right_cancel moved
  have others : ∀ {h : BufferHead} (a : Addr), a ≠ b → ((c.setHead b h).heads a).dev = (c.heads a).dev ∧
      ((c.setHead b h).heads a).blockNr = (c.heads a).blockNr := by
    intro h a other
    rw [Cache.setHead_heads, if_neg other]
    exact ⟨rfl, rfl⟩
  have counts : ∀ h : BufferHead, h.count = (c.heads b).count →
      ∀ a, ((c.setHead b h).heads a).count = (c.heads a).count := by
    intro h same a
    rw [Cache.setHead_heads]
    split
    next here =>
      rw [here]
      exact same
    next => rfl
  -- one case for each statement at the end of `getblk`; the buffer belongs to the task throughout
  cases pc with
  | count =>
    obtain ⟨rfl, rfl⟩ := Prod.mk.inj (Option.some.inj done)
    have zero : (c.heads b).count = 0 := known
    refine .recount sound top ?_ (fun a other => ?_) ?_
    · rw [zero]
      simp [Call.refs]
    · simp [Call.refs, Ne.symm other]
    · change ((c.setHead b _).heads b).count = 1
      rw [Cache.setHead_self]
  | dirt =>
    obtain ⟨rfl, rfl⟩ := Prod.mk.inj (Option.some.inj done)
    refine later (fun _ => rfl) (fun _ => rfl) known (counts _ rfl) others ?_
    exact (counts { c.heads b with dirt := false } rfl b).trans known
  | uptodate =>
    obtain ⟨rfl, rfl⟩ := Prod.mk.inj (Option.some.inj done)
    refine later (fun _ => rfl) (fun _ => rfl) known (counts _ rfl) others ?_
    exact (counts { c.heads b with uptodate := false } rfl b).trans known
  | remove k =>
    simp only [claimStep] at done
    split at done
    next =>
      obtain ⟨rfl, rfl⟩ := Prod.mk.inj (Option.some.inj done)
      exact later (fun _ => rfl) (fun _ => rfl) known (fun _ => rfl) (fun _ _ => ⟨rfl, rfl⟩) known
    next statement here =>
      obtain ⟨c₁, executed, result⟩ := Option.map_eq_some_iff.mp done
      obtain ⟨rfl, rfl⟩ := Prod.mk.inj result
      have same := Cache.sameIds_remove (List.mem_of_getElem? here) executed
      exact later (fun _ => rfl) (fun _ => rfl) known (fun a => (same a).1) (fun a _ => (same a).2)
        ((same b).1.trans known)
  | dev =>
    obtain ⟨rfl, rfl⟩ := Prod.mk.inj (Option.some.inj done)
    refine later (fun _ => rfl) (fun _ => rfl) known (counts _ rfl) others
      ⟨(counts { c.heads b with dev := dev } rfl b).trans known, ?_⟩
    rw [Cache.setHead_self]
  | blockNr =>
    obtain ⟨rfl, rfl⟩ := Prod.mk.inj (Option.some.inj done)
    refine later (fun _ => rfl) (fun _ => rfl) known.1 (counts _ rfl) others
      ⟨(counts { c.heads b with blockNr := block } rfl b).trans known.1, ?_⟩
    rw [Cache.setHead_self]
    exact ⟨known.2, rfl⟩
  | insert k =>
    simp only [claimStep] at done
    split at done
    next =>
      obtain ⟨rfl, rfl⟩ := Prod.mk.inj (Option.some.inj done)
      exact .returned sound top (fun _ => rfl) known.2
    next statement here =>
      obtain ⟨c₁, executed, result⟩ := Option.map_eq_some_iff.mp done
      obtain ⟨rfl, rfl⟩ := Prod.mk.inj result
      have same := Cache.sameIds_insert (List.mem_of_getElem? here) executed
      refine later (fun _ => rfl) (fun _ => rfl) known.1 (fun a => (same a).1) (fun a _ => (same a).2)
        ⟨(same b).1.trans known.1, ?_⟩
      exact ⟨(same b).2.1.trans known.2.1, (same b).2.2.trans known.2.2⟩

/-- The count of a buffer wraps around at this statement. -/
def Overflows (c : Cache) (t : Client) : Prop :=
  ∃ dev block b, t.stack.head? = some (.raise dev block b) ∧ (c.heads b).count = 255

def overflows (c : Cache) (t : Client) : Bool :=
  match t.stack.head? with
  | some (.raise _ _ b) => (c.heads b).count == 255
  | _ => false

theorem overflows_iff (c : Cache) (t : Client) : overflows c t = true ↔ Overflows c t := by
  unfold overflows Overflows
  split
  next dev block b top => simp [top]
  next other =>
    refine iff_of_false Bool.false_ne_true ?_
    rintro ⟨dev, block, b, top, _⟩
    exact other dev block b top

instance (c : Cache) (t : Client) : Decidable (Overflows c t) := decidable_of_iff _ (overflows_iff c t)

theorem effect_exec (sound : t.Sound c) (counted : ∀ b, t.refs b ≤ (c.heads b).count.toNat) (room : ¬ Overflows c t)
    (done : exec c t = some (c', t')) : Effect c t c' t' := by
  cases top : t.stack with
  | nil =>
    rw [exec, top] at done
    cases done
  | cons f below =>
    have first : t.stack.head? = some f := by rw [top]; rfl
    have known : f.Sound c := sound.top f first
    have reference := counted
    simp only [refs_cons top] at reference
    rw [exec, first] at done
    -- one case for each call and statement; most only move on in the code
    cases f with
    | hash dev block =>
      obtain ⟨rfl, rfl⟩ := Prod.mk.inj (Option.some.inj done)
      exact .goOn sound top (fun _ => rfl) trivial
    | lookup dev block tmp =>
      cases tmp with
      | none =>
        obtain ⟨rfl, rfl⟩ := Prod.mk.inj (Option.some.inj done)
        exact .goOn sound top (fun _ => rfl) trivial
      | some tmp =>
        dsimp only at done
        split at done <;> obtain ⟨rfl, rfl⟩ := Prod.mk.inj (Option.some.inj done)
        · exact .goOn sound top (fun _ => rfl) trivial
        · exact .goOn sound top (fun _ => rfl) trivial
    | lookupNext dev block tmp =>
      obtain ⟨rfl, rfl⟩ := Prod.mk.inj (Option.some.inj done)
      exact .goOn sound top (fun _ => rfl) trivial
    | raise dev block b =>
      obtain ⟨rfl, rfl⟩ := Prod.mk.inj (Option.some.inj done)
      refine .recount sound top ?_ (fun a other => ?_) trivial
      · rw [toNat_succ fun full => room ⟨dev, block, b, first, full⟩]
        simp [Call.refs]
      · simp [Call.refs, Ne.symm other]
    | hashWait dev block b =>
      dsimp only at done
      split at done
      · cases done
      · obtain ⟨rfl, rfl⟩ := Prod.mk.inj (Option.some.inj done)
        exact .waited sound top (fun _ => rfl) trivial
    | check dev block b =>
      dsimp only at done
      split at done
      next id =>
        obtain ⟨rfl, rfl⟩ := Prod.mk.inj (Option.some.inj done)
        exact .returned sound top (fun _ => rfl) id
      next =>
        obtain ⟨rfl, rfl⟩ := Prod.mk.inj (Option.some.inj done)
        exact .goOn sound top (fun _ => rfl) trivial
    | lower dev block b =>
      obtain ⟨rfl, rfl⟩ := Prod.mk.inj (Option.some.inj done)
      have positive := reference b
      simp only [Call.refs, if_true] at positive
      refine .recount sound top ?_ (fun a other => ?_) trivial
      · rw [toNat_pred (by omega)]
        simp [Call.refs]
        omega
      · simp [Call.refs, Ne.symm other]
    | scan dev block tmp bh =>
      dsimp only at done
      split at done <;> obtain ⟨rfl, rfl⟩ := Prod.mk.inj (Option.some.inj done)
      · exact .goOn sound top (fun _ => rfl) trivial
      · exact .goOn sound top (fun _ => rfl) trivial
    | weigh dev block tmp bh =>
      dsimp only at done
      split at done <;> obtain ⟨rfl, rfl⟩ := Prod.mk.inj (Option.some.inj done)
      · exact .goOn sound top (fun _ => rfl) trivial
      · exact .goOn sound top (fun _ => rfl) trivial
    | best dev block tmp =>
      dsimp only at done
      split at done <;> obtain ⟨rfl, rfl⟩ := Prod.mk.inj (Option.some.inj done)
      · exact .goOn sound top (fun _ => rfl) trivial
      · exact .goOn sound top (fun _ => rfl) trivial
    | scanNext dev block tmp bh =>
      dsimp only at done
      split at done
      · cases done
      · split at done
        · obtain ⟨rfl, rfl⟩ := Prod.mk.inj (Option.some.inj done)
          exact .goOn sound top (fun _ => rfl) trivial
        · split at done <;> obtain ⟨rfl, rfl⟩ := Prod.mk.inj (Option.some.inj done)
          · exact .goOn sound top (fun _ => rfl) trivial
          · exact .goOn sound top (fun _ => rfl) trivial
    | bufferWait dev block =>
      obtain ⟨rfl, rfl⟩ := Prod.mk.inj (Option.some.inj done)
      exact .goOn sound top (fun _ => rfl) trivial
    | wait dev block b =>
      dsimp only at done
      split at done
      · cases done
      · obtain ⟨rfl, rfl⟩ := Prod.mk.inj (Option.some.inj done)
        exact .waited sound top (fun _ => rfl) trivial
    | test dev block b =>
      dsimp only at done
      split at done
      next =>
        obtain ⟨rfl, rfl⟩ := Prod.mk.inj (Option.some.inj done)
        exact .goOn sound top (fun _ => rfl) trivial
      next free =>
        obtain ⟨rfl, rfl⟩ := Prod.mk.inj (Option.some.inj done)
        exact .goOn sound top (fun _ => rfl) (not_not.mp free)
    | dirty dev block b =>
      dsimp only at done
      split at done <;> obtain ⟨rfl, rfl⟩ := Prod.mk.inj (Option.some.inj done)
      · exact .goOn sound top (fun _ => rfl) trivial
      · exact .goOn sound top (fun _ => rfl) known
    | sync dev block b => cases done
    | rehash dev block b =>
      obtain ⟨rfl, rfl⟩ := Prod.mk.inj (Option.some.inj done)
      exact .goOn sound top (fun _ => rfl) known
    | find dev block b tmp =>
      cases tmp with
      | none =>
        obtain ⟨rfl, rfl⟩ := Prod.mk.inj (Option.some.inj done)
        exact .goOn sound top (fun _ => rfl) known
      | some tmp =>
        dsimp only at done
        split at done <;> obtain ⟨rfl, rfl⟩ := Prod.mk.inj (Option.some.inj done)
        · exact .goOn sound top (fun _ => rfl) trivial
        · exact .goOn sound top (fun _ => rfl) known
    | findNext dev block b tmp =>
      obtain ⟨rfl, rfl⟩ := Prod.mk.inj (Option.some.inj done)
      exact .goOn sound top (fun _ => rfl) known
    | claim dev block b pc => exact effect_claimStep sound top done
    | release b =>
      dsimp only at done
      split at done
      · cases done
      · obtain ⟨rfl, rfl⟩ := Prod.mk.inj (Option.some.inj done)
        exact .waited sound top (fun _ => rfl) trivial
    | drop b =>
      dsimp only at done
      split at done
      · cases done
      · obtain ⟨rfl, rfl⟩ := Prod.mk.inj (Option.some.inj done)
        exact .dropped sound top (reference b)

end Effects

/-! ### Exclusion -/

/-- No task is past the start of a call, the counts are exact, and the buffers are for the blocks asked for. -/
def Start {τ : Type} [Fintype τ] (c : Cache) (clients : τ → Client) : Prop :=
  (∀ t, (clients t).stack = [] ∨ ∃ dev block, (clients t).stack = [.hash dev block]) ∧
    (∀ b, total (refs b) clients = (c.heads b).count.toNat) ∧
    ∀ t b dev block, (b, dev, block) ∈ (clients t).held → Matches (c.heads b) dev block

section Exclusion

variable {τ : Type} [Fintype τ] {c c' : Cache} {t t' : Client} {clients : τ → Client}

theorem Sound.outside (sound : t.Sound c) (outside : ¬ Window t) : t.Sound c' := by
  refine ⟨fun f first => ?_, sound.below⟩
  have other : ¬ f.Inside := fun inside => outside ⟨f, first, inside⟩
  cases f <;> first | trivial | exact (other trivial).elim

/-- The counts are exact, and the buffers that the tasks hold are for the blocks they asked for. -/
structure Counted (c : Cache) (clients : τ → Client) : Prop where
  counts : ∀ b, total (refs b) clients = (c.heads b).count.toNat
  sound : ∀ t, (clients t).Sound c
  held : ∀ t b dev block, (b, dev, block) ∈ (clients t).held → Matches (c.heads b) dev block

theorem not_window_start (start : Start c clients) (t : τ) : ¬ Window (clients t) := by
  rintro ⟨f, first, inside⟩
  rcases start.1 t with begin | ⟨dev, block, begin⟩
  · rw [begin] at first
    cases first
  · rw [begin] at first
    obtain rfl := Option.some.inj first
    exact inside

theorem counted_start (start : Start c clients) : Counted c clients := by
  refine ⟨start.2.1, fun t => ⟨fun f first => ?_, fun f member => ?_⟩, start.2.2⟩
  · rcases start.1 t with begin | ⟨dev, block, begin⟩
    · rw [begin] at first
      cases first
    · rw [begin] at first
      obtain rfl := Option.some.inj first
      exact trivial
  · rcases start.1 t with begin | ⟨dev, block, begin⟩
    · rw [begin] at member
      cases member
    · rw [begin] at member
      cases member

/-- What a call knows of its buffer are counts and identities. -/
theorem sound_congr {f : Call} (same : c.SameIds c') (sound : f.Sound c) : f.Sound c' := by
  have count : ∀ a, (c'.heads a).count = (c.heads a).count := fun a => (same a).1
  have dev : ∀ a, (c'.heads a).dev = (c.heads a).dev := fun a => (same a).2.1
  have blockNr : ∀ a, (c'.heads a).blockNr = (c.heads a).blockNr := fun a => (same a).2.2
  cases f with
  | dirty _ _ b | rehash _ _ b | find _ _ b _ | findNext _ _ b _ => exact (count b).trans sound
  | claim _ _ b pc =>
    cases pc with
    | count | dirt | uptodate | remove _ | dev => exact (count b).trans sound
    | blockNr => exact ⟨(count b).trans sound.1, (dev b).trans sound.2⟩
    | insert k => exact ⟨(count b).trans sound.1, (dev b).trans sound.2.1, (blockNr b).trans sound.2.2⟩
  | _ => trivial

/-- The flags of the buffers do not matter. -/
theorem Counted.flagged (counted : Counted c clients) (flagged : Flagged c c') : Counted c' clients := by
  have same : c.SameIds c' := by
    intro a
    obtain ⟨lock, dirt, uptodate, head⟩ := flagged.heads a
    rw [head]
    exact ⟨rfl, rfl, rfl⟩
  refine ⟨fun b => ?_, fun t => ⟨fun f first => ?_, (counted.sound t).below⟩, fun t b dev block holds => ?_⟩
  · rw [(same b).1]
    exact counted.counts b
  · exact sound_congr same ((counted.sound t).top f first)
  · obtain ⟨isDev, isBlock⟩ := counted.held t b dev block holds
    exact ⟨(same b).2.1.trans isDev, (same b).2.2.trans isBlock⟩

variable [DecidableEq τ]

/-- What the running task does, where the others are outside the window. -/
theorem Counted.update {s : State Cache Client τ} (counted : Counted s.shared s.places) (alone : Alone Window s)
    (moved : ∀ b, (c'.heads b).count.toNat + s.place.refs b = (s.shared.heads b).count.toNat + t'.refs b)
    (sound : t'.Sound c')
    (mine : ∀ b dev block, (b, dev, block) ∈ t'.held → Matches (c'.heads b) dev block)
    (others : ∀ u b dev block, u ≠ s.running → (b, dev, block) ∈ (s.places u).held → Matches (c'.heads b) dev block) :
    Counted c' (Function.update s.places s.running t') := by
  refine ⟨fun b => ?_, fun u => ?_, fun u => ?_⟩
  · have counts := counted.counts b
    -- only the running task changes its share of the sum
    have sum := total_update (refs b) s.places s.running t'
    have same := moved b
    change _ + s.place.refs b = _ at sum
    omega
  · by_cases here : u = s.running
    · rw [here, Function.update_self]
      exact sound
    · rw [Function.update_of_ne here]
      exact (counted.sound u).outside (alone u here)
  · by_cases here : u = s.running
    · rw [here, Function.update_self]
      exact mine
    · rw [Function.update_of_ne here]
      exact fun b dev block => others u b dev block here

theorem Counted.exec {s : State Cache Client τ} (counted : Counted s.shared s.places) (alone : Alone Window s)
    (room : ¬ Overflows s.shared s.place) (done : Client.exec s.shared s.place = some (c', t')) :
    Counted c' (Function.update s.places s.running t') := by
  have references : ∀ b, s.place.refs b ≤ (s.shared.heads b).count.toNat := by
    intro b
    rw [← counted.counts b]
    exact le_total (refs b) s.places s.running
  cases effect_exec (counted.sound s.running) references room done with
  | quiet refs held sound =>
    refine counted.update alone (fun b => ?_) sound ?_ fun u b dev block _ => counted.held u b dev block
    · exact congrArg _ (refs b).symm
    · rw [held]
      exact counted.held s.running
  | @count _ b n moved others held sound =>
    have id : ∀ a dev block, Matches (s.shared.heads a) dev block →
        Matches ((s.shared.setHead b { s.shared.heads b with count := n }).heads a) dev block := by
      intro a dev block same
      rw [Cache.setHead_heads]
      split
      next here =>
        rw [here] at same
        exact same
      next => exact same
    refine counted.update alone (fun a => ?_) sound ?_ fun u a dev block _ holds =>
      id a dev block (counted.held u a dev block holds)
    · rw [Cache.setHead_heads]
      split
      next here =>
        rw [here]
        exact moved
      next other => exact congrArg _ (others a other).symm
    · rw [held]
      exact fun a dev block holds => id a dev block (counted.held s.running a dev block holds)
  | @handOut b dev block id refs sound =>
    refine counted.update alone (fun a => ?_) sound ?_ fun u a dev block _ => counted.held u a dev block
    · exact congrArg _ (refs a).symm
    · intro a dev' block' holds
      rcases List.mem_cons.mp holds with same | before
      · obtain ⟨rfl, rfl, rfl⟩ := same
        exact id
      · exact counted.held s.running a dev' block' before
  | @claim _ _ b counts ids one mine refs held sound =>
    have total : total (Client.refs b) s.places = 1 := by
      rw [counted.counts b, one]
      rfl
    -- the reference of the call is the only one, so that nobody holds the buffer
    have absent : ∀ u a dev block, (a, dev, block) ∈ (s.places u).held → a ≠ b := by
      rintro u a dev block holds rfl
      have counted : 1 ≤ ((s.places u).held.map Prod.fst).count a :=
        List.one_le_count_iff.mpr (List.mem_map.mpr ⟨_, holds, rfl⟩)
      by_cases here : u = s.running
      · have all := le_total (Client.refs a) s.places s.running
        rw [here] at counted
        change _ + ((s.places s.running).held.map Prod.fst).count a ≤ Client.refs a (s.places s.running) at mine
        omega
      · have pair := pair_le_total (Client.refs a) s.places here
        have other : ((s.places u).held.map Prod.fst).count a ≤ Client.refs a (s.places u) := Nat.le_add_left _ _
        change _ ≤ Client.refs a (s.places s.running) at mine
        omega
    have id : ∀ u a dev block, (a, dev, block) ∈ (s.places u).held → Matches (c'.heads a) dev block := by
      intro u a dev block holds
      obtain ⟨sameDev, sameBlock⟩ := ids a (absent u a dev block holds)
      obtain ⟨isDev, isBlock⟩ := counted.held u a dev block holds
      exact ⟨sameDev.trans isDev, sameBlock.trans isBlock⟩
    refine counted.update alone (fun a => ?_) sound ?_ fun u a dev block _ => id u a dev block
    · rw [counts a]
      exact congrArg _ (refs a).symm
    · rw [held]
      exact id s.running

/-- A task calls from outside the window. -/
theorem Counted.call {s : State Cache Client τ} (counted : Counted s.shared s.places) (alone : Alone Window s)
    (called : Calls s.place t') : Counted s.shared (Function.update s.places s.running t') := by
  have mine := counted.held s.running
  have others := fun u a dev block (_ : u ≠ s.running) => counted.held u a dev block
  have sync : ∀ f : Call, (∃ dev block b, f = .sync dev block b) → f.Sound s.shared := by
    rintro f ⟨dev, block, b, rfl⟩
    exact trivial
  -- a new call takes over the references that the task gives to it
  cases called with
  | getblk outside intr =>
    refine counted.update alone (fun b => ?_) ⟨fun f first => ?_, outside⟩ mine others
    · simp [Client.refs, Call.refs]
    · obtain rfl := Option.some.inj first
      exact trivial
  | @brelse b dev block outside holds intr =>
    refine counted.update alone (fun a => ?_) ⟨fun f first => ?_, outside⟩ ?_ others
    · -- the reference goes over to the call
      have perm := ((List.perm_cons_erase holds).map Prod.fst).count_eq a
      rw [List.map_cons, List.count_cons] at perm
      simp only [Client.refs, List.map_cons, List.sum_cons, Call.refs, perm]
      by_cases here : b = a
      · simp [here]
        omega
      · simp [here]
    · obtain rfl := Option.some.inj first
      exact trivial
    · exact fun a dev' block' member => mine a dev' block' (List.mem_of_mem_erase member)
  | @synced dev block b below inside intr =>
    refine counted.update alone (fun a => ?_) ⟨fun f first => ?_, fun f member => ?_⟩ mine others
    · simp [Client.refs, Call.refs, inside]
    · obtain rfl := Option.some.inj first
      exact trivial
    · apply (counted.sound s.running).below f
      change f ∈ s.place.stack.tail
      rw [inside]
      exact member

/-- Where no tick comes between the last test of a count and the end of `getblk`,
and no count overflows, nobody gets a buffer that somebody has for another block. -/
theorem exclusive_of_calm {hist : List (State Cache Client τ × Event)} {s : State Cache Client τ}
    (run : Transition.Run (system code Start) hist s) (calm : ∀ x ∈ hist, Calm Window x)
    (room : ∀ x ∈ hist, x.2 = .exec → ¬ Overflows x.1.shared x.1.place) :
    ∀ t u b dev block dev' block', (b, dev, block) ∈ (s.places t).held → (b, dev', block') ∈ (s.places u).held →
      dev = dev' ∧ block = block' := by
  have counted : Counted s.shared s.places := by
    apply invariant (G := fun x => x.2 = .exec → ¬ Overflows x.1.shared x.1.place) (W := Window) _ _ _ _ _ run room calm
    · rintro c t asleep ⟨f, first, inside⟩
      change Sleeps c t at asleep
      rw [Sleeps, first] at asleep
      cases f <;> first | exact asleep | exact inside
    · exact fun c clients start => ⟨counted_start start, not_window_start start⟩
    · exact fun s c t counted alone room done => counted.exec alone (room rfl) done
    · exact fun s t counted alone called => counted.call alone called
    · exact fun s c counted flagged => counted.flagged flagged
  intro t u b dev block dev' block' left right
  obtain ⟨sameDev, sameBlock⟩ := counted.held t b dev block left
  obtain ⟨sameDev', sameBlock'⟩ := counted.held u b dev' block' right
  exact ⟨sameDev.symm.trans sameDev', sameBlock.symm.trans sameBlock'⟩

end Exclusion

end Client

end OperatorSystem.Fs
