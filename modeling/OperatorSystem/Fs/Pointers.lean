import OperatorSystem.Fs.CacheInvariant

/-!
# The pointers behind the queues

`removeFromQueues` and `insertIntoQueues` load and store through the links of
the buffer and of the free list. The main result `insideArray_iff` says that
only the last store of `insertIntoQueues` ever leaves the array of heads, and
exactly where the bucket has no other buffer: it goes to address 0 then.
-/

namespace OperatorSystem.Fs

namespace Cache

/-- The pointers that `removeFromQueues` loads or stores through. -/
def removePointers (c : Cache) (bh : Addr) : List (Option Addr) :=
  let c1 := c.store (c.heads bh).next fun h => { h with prev := (c.heads bh).prev }
  let c2 := c1.store (c1.heads bh).prev fun h => { h with next := (c1.heads bh).next }
  -- the hash links are tested for NULL
  [some bh] ++ ((c.heads bh).next.toList ++ (c1.heads bh).prev.toList).map some ++
    [(c2.heads bh).prevFree, (c2.heads bh).nextFree]

/-- The pointers that `insertIntoQueues` loads or stores through. -/
def insertPointers (c : Cache) (bh : Addr) : List (Option Addr) :=
  let c1 := c.setHead bh { c.heads bh with nextFree := some c.freeList }
  let c2 := c1.setHead bh { c1.heads bh with prevFree := (c1.heads c1.freeList).prevFree }
  [some bh, some c2.freeList, (c2.heads c2.freeList).prevFree] ++
    if (c.heads bh).dev = 0 then [] else [c.hashTable (c.bucket bh)]

/-- The pointers of the two calls at the end of `getblk`. -/
def claimPointers (c : Cache) (bh : Addr) (dev block : BitVec 32) : Option (List (Option Addr)) := do
  let c := c.setHead bh { c.heads bh with count := 1, dirt := false, uptodate := false }
  let c' ← c.removeFromQueues bh
  let c' := c'.setHead bh { c'.heads bh with dev := dev.setWidth 16, blockNr := block }
  return c.removePointers bh ++ c'.insertPointers bh

/-- The pointer leads to a head of the array. -/
def InArray (c : Cache) (p : Option Addr) : Prop := ∃ a, p = some a ∧ c.IsHead a

section Pointers

variable {c : Cache} {free : List Addr} {chain : Nat → List Addr} {a b : Addr} {dev block : BitVec 32}

/-- The pointers of `removeFromQueues` by the links at its call. -/
theorem removePointers_eq (c : Cache) (b : Addr) : c.removePointers b =
    [some b] ++ ((c.nexts b).toList ++ (c.prevs b).toList).map some ++ [c.prevFrees b, c.nextFrees b] := by
  simp only [removePointers, store_next, store_prev, ite_self, nexts, prevs, prevFrees, nextFrees]

theorem insertPointers_eq (c : Cache) (b : Addr) : c.insertPointers b =
    [some b, some c.freeList, c.prevFrees c.freeList] ++
      if (c.heads b).dev = 0 then [] else [c.hashTable (c.bucket b)] := by
  unfold insertPointers
  extract_lets _ c1 _ c2
  have prev1 : ∀ a, (c1.heads a).prevFree = c.prevFrees a := by
    intro a
    simp only [c1, setHead_heads, prevFrees]
    split
    next here => rw [here]
    next => rfl
  have last : (c2.heads c2.freeList).prevFree = c.prevFrees c.freeList := by
    change (c2.heads c.freeList).prevFree = _
    simp only [c2, setHead_heads, prev1]
    split
    next => rfl
    next => exact prev1 c.freeList
  rw [last]
  rfl

theorem inArray_some {a : Addr} : c.InArray (some a) ↔ c.IsHead a := by
  simp [InArray]

/-- `removeFromQueues` stays inside the array. -/
theorem removePointers_inArray (queues : Queues c c.IsHead free chain) (isHead : c.IsHead b) :
    ∀ p ∈ c.removePointers b, c.InArray p := by
  obtain ⟨⟨nf, next, isNext⟩, pf, prev, isPrev⟩ := queues.ring.closed ((queues.listed b).mpr isHead)
  have hashed : ∀ a, c.nexts b = some a ∨ c.prevs b = some a → c.IsHead a := by
    intro a linked
    exact ((queues.chained _ a).mp (queues.neighbour isHead linked).2).1
  rw [removePointers_eq, isNext, isPrev]
  intro p member
  simp only [List.map_append, List.mem_append, List.mem_map, Option.mem_toList, List.mem_cons,
    List.not_mem_nil, or_false] at member
  rcases member with (rfl | ⟨a, link, rfl⟩ | ⟨a, link, rfl⟩) | rfl | rfl
  · exact inArray_some.mpr isHead
  · exact inArray_some.mpr (hashed a (.inl link))
  · exact inArray_some.mpr (hashed a (.inr link))
  · exact inArray_some.mpr ((queues.listed pf).mp prev)
  · exact inArray_some.mpr ((queues.listed nf).mp next)

/-- The pointers of `insertIntoQueues` to the free list stay inside the array. -/
theorem freePointers_inArray {on : Addr → Prop} {rest : List Addr} (queues : Queues c on rest chain)
    (inside : ∀ a, on a → c.IsHead a) (isHead : c.IsHead b)
    (alone : rest = [] → c.freeList = b ∧ c.prevFrees b = some b) :
    c.InArray (some c.freeList) ∧ c.InArray (c.prevFrees c.freeList) := by
  cases rest with
  | nil =>
    obtain ⟨start, prev⟩ := alone rfl
    rw [start, prev]
    exact ⟨inArray_some.mpr isHead, inArray_some.mpr isHead⟩
  | cons y l =>
    have start : y = c.freeList := Option.some.inj (queues.first (List.cons_ne_nil y l))
    have first : c.freeList ∈ y :: l := start ▸ List.mem_cons_self
    obtain ⟨_, pf, prev, isPrev⟩ := queues.ring.closed first
    rw [isPrev]
    exact ⟨inArray_some.mpr (inside _ ((queues.listed _).mp first)),
      inArray_some.mpr (inside _ ((queues.listed _).mp prev))⟩

/-- The hash table leads to a head if the bucket is not empty. -/
theorem hashTable_inArray {on : Addr → Prop} {rest : List Addr} (queues : Queues c on rest chain)
    (inside : ∀ a, on a → c.IsHead a) (k : Nat) : c.InArray (c.hashTable k) ↔ ∃ a, a ∈ chain k := by
  have head := (queues.forth k).head
  rw [Option.or_none] at head
  constructor
  · rintro ⟨a, start, _⟩
    exact ⟨a, List.mem_of_mem_head? (head ▸ start)⟩
  · rintro ⟨a, member⟩
    cases whole : chain k with
    | nil => simp [whole] at member
    | cons y l =>
      have first : y ∈ chain k := by simp [whole]
      exact ⟨y, by rw [head, whole]; rfl, inside y ((queues.chained k y).mp first).1⟩

/-- All pointers lead to heads, except where the last one finds an empty bucket. -/
theorem claimPointers_spec (queues : Queues c c.IsHead free chain) (isHead : c.IsHead b) :
    ∃ ps, c.claimPointers b dev block = some ps ∧ ((∀ p ∈ ps, c.InArray p) ↔
      dev.setWidth 16 = 0 ∨ ∃ a, a ≠ b ∧ a ∈ chain (hashfn (dev.setWidth 16) block)) := by
  obtain ⟨c1, taken⟩ := queues.marked.freeRing.removable ((queues.listed _).mpr isHead)
  obtain ⟨pf, nf, removed⟩ := removeFromQueues_spec taken
  -- after the removal the buffer is out of the ring and of all chains
  obtain ⟨rest, out, alone⟩ := queues.marked.takeOut isHead removed (dev.setWidth 16) block
  refine ⟨_, Option.bind_eq_some_iff.mpr ⟨c1, taken, rfl⟩, ?_⟩
  have size : c1.nrBuffers = c.nrBuffers := removed.nrBuffers
  have named : (c1.setHead b { c1.heads b with dev := dev.setWidth 16, blockNr := block }).heads b =
      { c1.heads b with dev := dev.setWidth 16, blockNr := block } := (setHead_heads _).trans (if_pos rfl)
  have heads : (c1.setHead b { c1.heads b with dev := dev.setWidth 16, blockNr := block }).IsHead = c.IsHead := by
    unfold IsHead
    rw [← size]
    rfl
  generalize c1.setHead b { c1.heads b with dev := dev.setWidth 16, blockNr := block } = c2 at out alone named heads ⊢
  have arrays : c2.InArray = c.InArray := by
    unfold InArray
    rw [heads]
  have inside : ∀ a, c.IsHead a ∧ a ≠ b → c2.IsHead a := by
    intro a both
    rw [heads]
    exact both.1
  -- what the removal writes through is in the ring or in a chain, so in the array
  have before : ∀ p ∈ (c.setHead b { c.heads b with count := 1, dirt := false, uptodate := false }).removePointers b,
      c.InArray p := removePointers_inArray (queues.marked (b := b)) isHead
  obtain ⟨start, last⟩ := freePointers_inArray out inside (heads ▸ isHead) alone
  have bucket : c2.bucket b = hashfn (dev.setWidth 16) block := by rw [Cache.bucket, named]
  -- the old first element of the bucket is a head, or the bucket was empty
  have table := hashTable_inArray out inside (hashfn (dev.setWidth 16) block)
  have nodup := (queues.forth (hashfn (dev.setWidth 16) block)).nodup
  rw [arrays] at start last table
  simp only [nodup.mem_erase_iff] at table
  rw [insertPointers_eq, bucket, named]
  constructor
  · intro all
    by_cases unused : dev.setWidth 16 = 0
    · exact .inl unused
    · right
      apply table.mp
      apply all
      refine List.mem_append_right _ (List.mem_append_right _ ?_)
      rw [if_neg unused]
      exact List.mem_singleton_self _
  · intro other p member
    rcases List.mem_append.mp member with earlier | later
    · exact before p earlier
    · rcases List.mem_append.mp later with free | final
      · simp only [List.mem_cons, List.not_mem_nil, or_false] at free
        rcases free with rfl | rfl | rfl
        · exact inArray_some.mpr isHead
        · exact start
        · exact last
      · split at final
        · cases final
        next used =>
          obtain rfl := List.mem_singleton.mp final
          exact table.mpr (other.resolve_left used)

end Pointers

end Cache

namespace World

variable {τ : Type} [DecidableEq τ]

/-- `getblk` is about to take its victim `b` for the block. -/
structure Claims (s : World τ) (dev block : BitVec 32) (b : Addr) : Prop where
  top : ∃ below, s.stack = .victim dev block b :: below
  unlocked : (s.head b).lock = false
  free : (s.head b).count = 0
  clean : (s.head b).dirt = false
  absent : ∃ fuel, s.cache.findBuffer fuel dev block = some none

theorem Claims.queued {hist : List (World τ × Event)} {s : World τ} (run : Transition.Run tasks hist s)
    {dev block : BitVec 32} {b : Addr} (claims : s.Claims dev block b) :
    ∃ free chain, Cache.Queues s.cache s.cache.IsHead free chain ∧ s.cache.IsHead b := by
  have sound : Sound s := Transition.Reachable.invariant (fun _ => sound_init) (fun _ _ _ => Sound.step) ⟨hist, run⟩
  obtain ⟨free, chain, queues⟩ := sound.queues
  obtain ⟨below, top⟩ := claims.top
  have inside := sound.inside s.running
  rw [show s.frames s.running = _ from top] at inside
  exact ⟨free, chain, queues, (inside_cons.mp inside).1 b (List.mem_singleton_self b)⟩

/-- The pointers of a claim stay inside the array if and only if another buffer
is in the bucket of the block, or the device number is cut to 0. -/
theorem insideArray_iff {hist : List (World τ × Event)} {s : World τ} (run : Transition.Run tasks hist s)
    {dev block : BitVec 32} {b : Addr} (claims : s.Claims dev block b) :
    ∃ ps, s.cache.claimPointers b dev block = some ps ∧ ((∀ p ∈ ps, s.cache.InArray p) ↔
      dev.setWidth 16 = 0 ∨ ∃ a, a ≠ b ∧ s.cache.IsHead a ∧ (s.head a).dev ≠ 0 ∧
        s.cache.bucket a = hashfn (dev.setWidth 16) block) := by
  obtain ⟨free, chain, queues, isHead⟩ := claims.queued run
  obtain ⟨ps, pointers, spec⟩ : ∃ ps, s.cache.claimPointers b dev block = some ps ∧ _ :=
    Cache.claimPointers_spec queues isHead
  simp only [queues.chained] at spec
  exact ⟨ps, pointers, spec⟩

/-- The victim of the first block of all can be claimed. -/
theorem exists_claims : ∃ hist c, Transition.Run tasks hist (only c [.victim 0x300 5 (headAddr 0)] []) ∧
    Claims (only c [.victim 0x300 5 (headAddr 0)] []) 0x300 5 (headAddr 0) ∧
    ∀ a, c.IsHead a → (c.heads a).dev = 0 := by
  obtain ⟨hist, c, run, fresh, empty, _⟩ := exists_chosen
  obtain ⟨_, count, clean, unlocked, _⟩ := fresh.unused _ ⟨0, fresh.nonempty, rfl⟩
  refine ⟨hist, c, run, ?_, fun a isHead => (fresh.unused a isHead).1⟩
  refine ⟨⟨[], rfl⟩, unlocked, count, clean, 1, ?_⟩
  change c.findBuffer 1 0x300 5 = some none
  rw [Cache.findBuffer, empty]
  rfl

theorem insideArray_iff_first : ∃ hist c, Transition.Run tasks hist (only c [.victim 0x300 5 (headAddr 0)] []) ∧
    ∃ ps, c.claimPointers (headAddr 0) 0x300 5 = some ps ∧ ((∀ p ∈ ps, c.InArray p) ↔
      (0x300 : BitVec 32).setWidth 16 = (0 : BitVec 16) ∨ ∃ a, a ≠ headAddr 0 ∧ c.IsHead a ∧
        (c.heads a).dev ≠ 0 ∧ c.bucket a = hashfn ((0x300 : BitVec 32).setWidth 16) 5) := by
  obtain ⟨hist, c, run, claims, _⟩ := exists_claims
  exact ⟨hist, c, run, insideArray_iff run claims⟩

/-- The first block of all leaves the array: its bucket is empty. -/
theorem insideArray_lost : ∃ hist c, Transition.Run tasks hist (only c [.victim 0x300 5 (headAddr 0)] []) ∧
    Claims (only c [.victim 0x300 5 (headAddr 0)] []) 0x300 5 (headAddr 0) ∧
    ∃ ps, c.claimPointers (headAddr 0) 0x300 5 = some ps ∧ ¬ ∀ p ∈ ps, c.InArray p := by
  obtain ⟨hist, c, run, claims, unused⟩ := exists_claims
  obtain ⟨free, chain, queues, isHead⟩ := claims.queued run
  obtain ⟨ps, pointers, spec⟩ : ∃ ps, c.claimPointers (headAddr 0) 0x300 5 = some ps ∧ _ :=
    Cache.claimPointers_spec queues isHead
  refine ⟨hist, c, run, claims, ps, pointers, fun inside => ?_⟩
  rcases spec.mp inside with cut | ⟨a, _, member⟩
  · exact absurd cut (by decide)
  · -- no buffer is in a bucket yet
    obtain ⟨isHead', used, _⟩ := (queues.chained _ a).mp member
    exact used (unused a isHead')

end World

end OperatorSystem.Fs
