import OperatorSystem.Fs.BufferArea
import OperatorSystem.Library.PointerList
import Mathlib.Data.List.MinMax
import Mathlib.Data.List.Perm.Subperm

/-!
# The queues of the buffer cache

Every head is in the ring of the free list, and every head with a device is in
the hash chain of its identity. `claim` takes a head out of both queues and puts
it back with its new identity, and `claim_queues` says that they are as before
otherwise. The stores to the neighbours may fall on the head itself, since the
ring of a single buffer leads back to it.
-/

namespace OperatorSystem.Fs.Cache

open PointerList

def nexts (c : Cache) (a : Addr) : Option Addr := (c.heads a).next
def prevs (c : Cache) (a : Addr) : Option Addr := (c.heads a).prev
def nextFrees (c : Cache) (a : Addr) : Option Addr := (c.heads a).nextFree
def prevFrees (c : Cache) (a : Addr) : Option Addr := (c.heads a).prevFree

/-- `a` is a head of the array. -/
def IsHead (c : Cache) (a : Addr) : Prop := ∃ i < c.nrBuffers, headAddr i = a

/-- The heads `on` are those in the queues: `free` is the free list from its
start on, `chain k` the hash chain of the bucket `k`. -/
structure Queues (c : Cache) (on : Addr → Prop) (free : List Addr) (chain : Nat → List Addr) : Prop where
  listed : ∀ a, a ∈ free ↔ on a
  single : free.Nodup
  first : free ≠ [] → free.head? = some c.freeList
  ring : Ring c.nextFrees c.prevFrees free
  chained : ∀ k a, a ∈ chain k ↔ on a ∧ (c.heads a).dev ≠ 0 ∧ c.bucket a = k
  forth : ∀ k, Seg c.nexts (c.hashTable k) (chain k) none
  back : ∀ k, Back c.prevs none (chain k)
  bare : ∀ a, on a → (c.heads a).dev = 0 → c.nexts a = none ∧ c.prevs a = none

/-- The free list by itself. -/
structure FreeRing (c : Cache) (free : List Addr) : Prop where
  single : free.Nodup
  first : free ≠ [] → free.head? = some c.freeList
  ring : Ring c.nextFrees c.prevFrees free

theorem Queues.freeRing {c : Cache} {on : Addr → Prop} {free : List Addr} {chain : Nat → List Addr}
    (queues : Queues c on free chain) : FreeRing c free :=
  ⟨queues.single, queues.first, queues.ring⟩

/-! ### The stores -/

section Stores

variable {c c' : Cache} {a b : Addr}

theorem setHead_heads (h : BufferHead) : (c.setHead b h).heads a = if a = b then h else c.heads a := by
  simp only [setHead, Function.update_apply]

theorem store_heads (p : Option Addr) (f : BufferHead → BufferHead) :
    (c.store p f).heads a = if p = some a then f (c.heads a) else c.heads a := by
  cases p with
  | none => simp [store]
  | some b =>
    simp only [store, setHead_heads, Option.some.injEq, eq_comm (a := b)]
    split
    next same => rw [same]
    next => rfl

/-! Stores to one of the links -/

theorem store_prev (p v : Option Addr) (a : Addr) : (c.store p fun h => { h with prev := v }).heads a =
    { c.heads a with prev := if p = some a then v else c.prevs a } := by
  by_cases here : p = some a
  · rw [store_heads, if_pos here, if_pos here]
  · rw [store_heads, if_neg here, if_neg here]
    rfl

theorem store_next (p v : Option Addr) (a : Addr) : (c.store p fun h => { h with next := v }).heads a =
    { c.heads a with next := if p = some a then v else c.nexts a } := by
  by_cases here : p = some a
  · rw [store_heads, if_pos here, if_pos here]
  · rw [store_heads, if_neg here, if_neg here]
    rfl

theorem store_nextFree (p v : Option Addr) (a : Addr) : (c.store p fun h => { h with nextFree := v }).heads a =
    { c.heads a with nextFree := if p = some a then v else c.nextFrees a } := by
  by_cases here : p = some a
  · rw [store_heads, if_pos here, if_pos here]
  · rw [store_heads, if_neg here, if_neg here]
    rfl

theorem store_prevFree (p v : Option Addr) (a : Addr) : (c.store p fun h => { h with prevFree := v }).heads a =
    { c.heads a with prevFree := if p = some a then v else c.prevFrees a } := by
  by_cases here : p = some a
  · rw [store_heads, if_pos here, if_pos here]
  · rw [store_heads, if_neg here, if_neg here]
    rfl

@[simp] theorem store_hashTable (p : Option Addr) (f : BufferHead → BufferHead) :
    (c.store p f).hashTable = c.hashTable := by
  cases p <;> rfl

@[simp] theorem store_freeList (p : Option Addr) (f : BufferHead → BufferHead) :
    (c.store p f).freeList = c.freeList := by
  cases p <;> rfl

@[simp] theorem store_nrBuffers (p : Option Addr) (f : BufferHead → BufferHead) :
    (c.store p f).nrBuffers = c.nrBuffers := by
  cases p <;> rfl

/-- What `removeFromQueues` makes of the cache, by the links of `b` at its call. -/
structure Removed (c c' : Cache) (b pf nf : Addr) : Prop where
  prevFree : c.prevFrees b = some pf
  nextFree : c.nextFrees b = some nf
  heads : ∀ a, c'.heads a = { c.heads a with
    prev := if c.nexts b = some a then c.prevs b else c.prevs a
    next := if c.prevs b = some a then c.nexts b else c.nexts a
    nextFree := if pf = a then some nf else c.nextFrees a
    prevFree := if nf = a then some pf else c.prevFrees a }
  hashTable : c'.hashTable = if c.hashTable (c.bucket b) = some b then
    Function.update c.hashTable (c.bucket b) (c.nexts b) else c.hashTable
  freeList : c'.freeList = if c.freeList = b then nf else c.freeList
  nrBuffers : c'.nrBuffers = c.nrBuffers

theorem removeFromQueues_spec (removed : c.removeFromQueues b = some c') :
    ∃ pf nf, Removed c c' b pf nf := by
  unfold removeFromQueues at removed
  extract_lets c1 c2 c3 at removed
  have heads1 : ∀ a, c1.heads a = { c.heads a with
      prev := if c.nexts b = some a then c.prevs b else c.prevs a } :=
    fun a => store_prev _ _ a
  -- the first store changes the links of `b` only to what they are
  have prev1 : c1.prevs b = c.prevs b := by
    simp only [prevs, heads1, ite_self]
  have next1 : ∀ a, c1.nexts a = c.nexts a := by
    intro a
    simp only [nexts, heads1]
  have heads2 : ∀ a, c2.heads a = { c1.heads a with
      next := if c.prevs b = some a then c.nexts b else c.nexts a } := by
    intro a
    rw [← prev1, ← next1 b, ← next1 a]
    exact store_next _ _ a
  have next2 : (c2.heads b).next = c.nexts b := by
    rw [heads2]
    exact ite_self _
  have bucket2 : c2.bucket b = c.bucket b := by
    simp only [bucket, heads2, heads1]
  have heads3 : c3.heads = c2.heads := by
    simp only [c3]
    split <;> rfl
  have table3 : c3.hashTable = if c.hashTable (c.bucket b) = some b then
      Function.update c.hashTable (c.bucket b) (c.nexts b) else c.hashTable := by
    simp only [c3, bucket2, next2, c2, c1, store_hashTable]
    split <;> simp
  have free3 : c3.freeList = c.freeList ∧ c3.nrBuffers = c.nrBuffers := by
    simp only [c3]
    split <;> simp [c2, c1]
  split at removed
  next pf nf isPrev isNext =>
    have prevFree : c.prevFrees b = some pf := by simpa only [heads3, heads2, heads1] using! isPrev
    have nextFree : c.nextFrees b = some nf := by simpa only [heads3, heads2, heads1] using! isNext
    extract_lets _ c4 _ c5 at removed
    have heads4 : ∀ a, c4.heads a = { c3.heads a with
        nextFree := if pf = a then some nf else c.nextFrees a } := by
      intro a
      rw [show c.nextFrees a = c3.nextFrees a by simp only [nextFrees, heads3, heads2, heads1]]
      exact (store_nextFree (some pf) (some nf) a).trans (by simp only [Option.some.injEq])
    have heads5 : ∀ a, c5.heads a = { c4.heads a with
        prevFree := if nf = a then some pf else c.prevFrees a } := by
      intro a
      rw [show c.prevFrees a = c4.prevFrees a by simp only [prevFrees, heads4, heads3, heads2, heads1]]
      exact (store_prevFree (some nf) (some pf) a).trans (by simp only [Option.some.injEq])
    have done := Option.some.inj removed
    have heads' : c'.heads = c5.heads := by
      rw [← done]
      split <;> rfl
    refine ⟨pf, nf, prevFree, nextFree, fun a => ?_, ?_, ?_, ?_⟩
    · rw [heads', heads5, heads4, heads3, heads2, heads1]
    · rw [← table3, ← done]
      split <;> rfl
    · rw [← free3.1, ← done]
      split
      next here => exact (if_pos here).symm
      next there => exact (if_neg there).symm
    · rw [← free3.2, ← done]
      split <;> rfl
  next => cases removed

/-- `removeFromQueues` comes back if the head is in the free list. -/
theorem removeFromQueues_isSome {pf nf : Addr} (prevFree : c.prevFrees b = some pf)
    (nextFree : c.nextFrees b = some nf) : ∃ c', c.removeFromQueues b = some c' := by
  unfold removeFromQueues
  extract_lets c1 c2 c3
  have heads3 : c3.heads = c2.heads := by
    simp only [c3]
    split <;> rfl
  have prev3 : (c3.heads b).prevFree = some pf := by
    rw [heads3, ← prevFree]
    simp only [c2, c1, store_next, store_prev, prevFrees]
  have next3 : (c3.heads b).nextFree = some nf := by
    rw [heads3, ← nextFree]
    simp only [c2, c1, store_next, store_prev, nextFrees]
  rw [prev3, next3]
  exact ⟨_, rfl⟩

/-- What `insertIntoQueues` makes of the cache. -/
structure Inserted (c c' : Cache) (b : Addr) : Prop where
  heads : ∀ a, c'.heads a = { c.heads a with
    prev := if (c.heads b).dev ≠ 0 ∧ c.hashTable (c.bucket b) = some a then some b
      else if a = b then none else c.prevs a
    next := if a = b then if (c.heads b).dev = 0 then none else c.hashTable (c.bucket b) else c.nexts a
    nextFree := if c.prevFrees c.freeList = some a then some b
      else if a = b then some c.freeList else c.nextFrees a
    prevFree := if a = c.freeList then some b else if a = b then c.prevFrees c.freeList else c.prevFrees a }
  hashTable : c'.hashTable = if (c.heads b).dev = 0 then c.hashTable else
    Function.update c.hashTable (c.bucket b) (some b)
  freeList : c'.freeList = c.freeList
  nrBuffers : c'.nrBuffers = c.nrBuffers

theorem insertIntoQueues_spec (c : Cache) (b : Addr) : Inserted c (c.insertIntoQueues b) b := by
  unfold insertIntoQueues
  extract_lets _ c1 _ c2 c3 _ c4 _ c5 _ c6 c7
  have heads1 : ∀ a, c1.heads a = { c.heads a with
      nextFree := if a = b then some c.freeList else c.nextFrees a } :=
    fun a => (store_nextFree (some b) (some c.freeList) a).trans
      (by simp only [Option.some.injEq, eq_comm (a := b)])
  have heads2 : ∀ a, c2.heads a = { c1.heads a with
      prevFree := if a = b then c.prevFrees c.freeList else c.prevFrees a } := by
    intro a
    have prev1 : ∀ a, c1.prevFrees a = c.prevFrees a := by
      intro a
      simp only [prevFrees, heads1]
    rw [← prev1, ← prev1]
    exact (store_prevFree (some b) (c1.prevFrees c.freeList) a).trans
      (by simp only [Option.some.injEq, eq_comm (a := b)])
  -- also where the ring leads back to `b`, its links are as the free list has them
  have last2 : c2.prevFrees c2.freeList = c.prevFrees c.freeList := by
    simp only [prevFrees, heads2]
    split <;> rfl
  have heads3 : ∀ a, c3.heads a = { c2.heads a with
      nextFree := if c.prevFrees c.freeList = some a then some b
        else if a = b then some c.freeList else c.nextFrees a } := by
    intro a
    have next2 : c2.nextFrees a = if a = b then some c.freeList else c.nextFrees a := by
      simp only [nextFrees, heads2, heads1]
    rw [← last2, ← next2]
    exact store_nextFree _ (some b) a
  have heads4 : ∀ a, c4.heads a = { c3.heads a with
      prevFree := if a = c.freeList then some b
        else if a = b then c.prevFrees c.freeList else c.prevFrees a } := by
    intro a
    have first : c3.freeList = c.freeList := by simp [c3, c2, c1, setHead]
    refine (store_prevFree (some c3.freeList) (some b) a).trans ?_
    simp only [first, Option.some.injEq, eq_comm (a := c.freeList), prevFrees, heads3, heads2]
  have heads5 : ∀ a, c5.heads a = { c4.heads a with
      prev := if a = b then none else c.prevs a
      next := if a = b then none else c.nexts a } := by
    intro a
    by_cases here : a = b
    · rw [here, if_pos rfl, if_pos rfl]
      exact (setHead_heads _).trans (if_pos rfl)
    · simp only [c5, setHead_heads, if_neg here, nexts, prevs, heads4, heads3, heads2, heads1]
  have table5 : c5.hashTable = c.hashTable ∧ c5.freeList = c.freeList ∧ c5.nrBuffers = c.nrBuffers := by
    simp [c5, c4, c3, c2, c1, setHead]
  have dev5 : (c5.heads b).dev = (c.heads b).dev := by
    simp only [heads5, heads4, heads3, heads2, heads1]
  have bucket5 : c5.bucket b = c.bucket b := by
    simp only [bucket, heads5, heads4, heads3, heads2, heads1]
  split
  next unused =>
    rw [dev5] at unused
    refine ⟨fun a => ?_, ?_, table5.2.1, table5.2.2⟩
    · have no : ¬ ((c.heads b).dev ≠ 0 ∧ c.hashTable (c.bucket b) = some a) := fun both => both.1 unused
      rw [heads5, heads4, heads3, heads2, heads1, if_neg no, if_pos unused]
    · rw [if_pos unused]
      exact table5.1
  next used =>
    rw [dev5] at used
    have heads6 : ∀ a, c6.heads a = { c5.heads a with
        next := if a = b then c.hashTable (c.bucket b) else c.nexts a } := by
      intro a
      by_cases here : a = b
      · rw [here, if_pos rfl, ← bucket5, ← table5.1]
        exact (setHead_heads _).trans (if_pos rfl)
      · simp only [c6, setHead_heads, if_neg here, nexts, heads5, heads4, heads3, heads2, heads1]
    have next7 : (c7.heads b).next = c.hashTable (c.bucket b) := by
      rw [show c7.heads = c6.heads from rfl, heads6, if_pos rfl]
    have bucket6 : c6.bucket b = c.bucket b := by
      rw [← bucket5]
      simp only [bucket, heads6]
    refine ⟨fun a => ?_, ?_, ?_, ?_⟩
    · have here : ((c.heads b).dev ≠ 0 ∧ c.hashTable (c.bucket b) = some a) ↔
          c.hashTable (c.bucket b) = some a := and_iff_right used
      rw [next7, store_prev, prevs, show c7.heads = c6.heads from rfl, heads6, heads5, heads4, heads3, heads2, heads1,
        if_neg used]
      simp only [here]
    · rw [store_hashTable, if_neg used, ← table5.1, ← bucket6]
      rfl
    · rw [store_freeList, ← table5.2.1]
      rfl
    · rw [store_nrBuffers, ← table5.2.2]
      rfl

end Stores

/-! ### Out of the queues and in again -/

section Moves

variable {c c' : Cache} {on : Addr → Prop} {free : List Addr} {chain : Nat → List Addr} {a b pf nf : Addr}

/-- The chains depend on the links and the identities only. -/
structure SameQueues (h h' : BufferHead) : Prop where
  dev : h'.dev = h.dev
  blockNr : h'.blockNr = h.blockNr
  prev : h'.prev = h.prev
  next : h'.next = h.next
  prevFree : h'.prevFree = h.prevFree
  nextFree : h'.nextFree = h.nextFree

theorem Queues.congr (queues : Queues c on free chain)
    (same : ∀ a, on a → SameQueues (c.heads a) (c'.heads a)) (table : c'.hashTable = c.hashTable)
    (start : c'.freeList = c.freeList) : Queues c' on free chain := by
  -- nothing that the queues read has changed
  have bucket : ∀ a, on a → c'.bucket a = c.bucket a := by
    intro a member
    rw [Cache.bucket, Cache.bucket, (same a member).dev, (same a member).blockNr]
  have inChain : ∀ k, ∀ a ∈ chain k, on a := fun k a member => ((queues.chained k a).mp member).1
  constructor
  · exact queues.listed
  · exact queues.single
  · rw [start]
    exact queues.first
  · constructor
    · exact queues.ring.1.congr fun a member => (same a ((queues.listed a).mp member)).nextFree
    · exact queues.ring.2.congr fun a member => (same a ((queues.listed a).mp member)).prevFree
  · intro k a
    rw [queues.chained]
    refine and_congr_right fun member => ?_
    rw [(same a member).dev, bucket a member]
  · intro k
    rw [table]
    exact (queues.forth k).congr fun a member => (same a (inChain k a member)).next
  · intro k
    exact (queues.back k).congr fun a member => (same a (inChain k a member)).prev
  · intro a member unused
    rw [(same a member).dev] at unused
    exact ⟨(same a member).next.trans (queues.bare a member unused).1,
      (same a member).prev.trans (queues.bare a member unused).2⟩

theorem Queues.setHead (queues : Queues c on free chain) {h : BufferHead} (same : SameQueues (c.heads b) h) :
    Queues (c.setHead b h) on free chain := by
  refine queues.congr (fun a _ => ?_) rfl rfl
  rw [setHead_heads]
  split
  next here =>
    rw [here]
    exact same
  next => exact ⟨rfl, rfl, rfl, rfl, rfl, rfl⟩

/-- The hash links of a head stay inside the chain of the head. -/
theorem Queues.neighbour (queues : Queues c on free chain) (member : on b)
    (linked : c.nexts b = some a ∨ c.prevs b = some a) :
    b ∈ chain (c.bucket b) ∧ a ∈ chain (c.bucket b) := by
  have used : (c.heads b).dev ≠ 0 := by
    intro unused
    have bare := queues.bare b member unused
    simp [bare] at linked
  have here : b ∈ chain (c.bucket b) := (queues.chained _ b).mpr ⟨member, used, rfl⟩
  refine ⟨here, ?_⟩
  obtain ⟨l, m, whole⟩ := List.append_of_mem here
  have forth := queues.forth (c.bucket b)
  have back := queues.back (c.bucket b)
  rw [whole] at forth back ⊢
  rcases linked with next | prev
  · rw [forth.next_eq, Option.or_none] at next
    simp [List.mem_of_mem_head? next]
  · rw [back.prev_eq, Option.or_none] at prev
    simp [List.mem_of_getLast? prev]

/-- A head is in one chain only. -/
theorem Queues.bucket_eq (queues : Queues c on free chain) {k : Nat} (here : a ∈ chain k) :
    c.bucket a = k :=
  ((queues.chained k a).mp here).2.2

section Removal

variable (removed : Removed c c' b pf nf)

include removed

theorem Removed.nexts (a : Addr) : c'.nexts a = if c.prevs b = some a then c.nexts b else c.nexts a := by
  rw [Cache.nexts, removed.heads]

theorem Removed.prevs (a : Addr) : c'.prevs a = if c.nexts b = some a then c.prevs b else c.prevs a := by
  rw [Cache.prevs, removed.heads]

theorem Removed.nextFrees (a : Addr) :
    c'.nextFrees a = if c.prevFrees b = some a then c.nextFrees b else c.nextFrees a := by
  rw [Cache.nextFrees, removed.heads, removed.prevFree, removed.nextFree]
  simp only [Option.some.injEq]

theorem Removed.prevFrees (a : Addr) :
    c'.prevFrees a = if c.nextFrees b = some a then c.prevFrees b else c.prevFrees a := by
  rw [Cache.prevFrees, removed.heads, removed.prevFree, removed.nextFree]
  simp only [Option.some.injEq]

theorem Removed.bucket (a : Addr) : c'.bucket a = c.bucket a := by
  simp only [Cache.bucket, removed.heads]

/-- The chain of the head loses it, the other chains stay. -/
theorem Queues.remove_chain (queues : Queues c on free chain) (member : on b) (k : Nat) :
    Seg c'.nexts (c'.hashTable k) ((chain k).erase b) none ∧ Back c'.prevs none ((chain k).erase b) := by
  have forth := queues.forth k
  have back := queues.back k
  by_cases here : b ∈ chain k
  · have bucket := queues.bucket_eq here
    obtain ⟨l, m, whole⟩ := List.append_of_mem here
    have single : (chain k).Nodup := forth.nodup
    rw [whole] at forth back single ⊢
    have fresh : b ∉ l := fun inside => (List.nodup_append.mp single).2.2 b inside b List.mem_cons_self rfl
    rw [List.erase_append_right _ fresh, List.erase_cons_head]
    have next := forth.next_eq
    have prev := back.prev_eq
    rw [Option.or_none] at next prev
    constructor
    · have start : c'.hashTable k = if l = [] then c.nexts b else c.hashTable k := by
        rw [removed.hashTable, bucket]
        cases l with
        | nil => rw [if_pos forth.1, if_pos rfl, Function.update_self]
        | cons y l =>
          have other : y ≠ b := fun same => fresh (same ▸ List.mem_cons_self)
          rw [if_neg, if_neg (List.cons_ne_nil y l)]
          rw [forth.1, Option.some.injEq]
          exact other
      rw [start]
      refine forth.unlink single fun a _ => ?_
      rw [removed.nexts, prev]
    · refine back.unlink single fun a _ => ?_
      rw [removed.prevs, next]
  · rw [List.erase_of_not_mem here]
    -- a neighbour of `b` in this chain would put `b` into it
    have apart : ∀ a ∈ chain k, c.nexts b ≠ some a ∧ c.prevs b ≠ some a := by
      intro a inside
      have elsewhere : ¬ (c.nexts b = some a ∨ c.prevs b = some a) := by
        intro linked
        obtain ⟨own, near⟩ := queues.neighbour member linked
        rw [← queues.bucket_eq near, queues.bucket_eq inside] at own
        exact here own
      exact not_or.mp elsewhere
    constructor
    · have start : c'.hashTable k = c.hashTable k := by
        rw [removed.hashTable]
        split
        next first =>
          apply Function.update_of_ne
          rintro rfl
          have head := forth.head
          rw [first, Option.or_none] at head
          exact here (List.mem_of_mem_head? head.symm)
        next => rfl
      rw [start]
      refine forth.congr fun a inside => ?_
      rw [removed.nexts, if_neg (apart a inside).2]
    · refine back.congr fun a inside => ?_
      rw [removed.prevs, if_neg (apart a inside).1]

theorem FreeRing.remove {l m : List Addr} (freeRing : FreeRing c (l ++ b :: m)) : FreeRing c' (l ++ m) := by
  have single := freeRing.single
  -- turned so that it begins with `b`, the ring loses its first element
  have turned : Ring c.nextFrees c.prevFrees (b :: (m ++ l)) := freeRing.ring.rotate
  have single' : (b :: (m ++ l)).Nodup := List.nodup_append_comm.mp single
  constructor
  · exact (List.nodup_middle.mp single).of_cons
  · -- `freeList` moves on if it was at `b`
    intro rest
    rw [removed.freeList]
    have first := freeRing.first (by simp)
    cases l with
    | nil =>
      have start : b = c.freeList := Option.some.inj first
      cases m with
      | nil => exact absurd rfl rest
      | cons y m =>
        have next := turned.links.1
        rw [removed.nextFree] at next
        rw [if_pos start.symm, next]
        rfl
    | cons y l =>
      have start : y = c.freeList := Option.some.inj first
      rw [if_neg, ← start]
      · rfl
      · rw [← start]
        rintro rfl
        exact (List.nodup_cons.mp single').1 (List.mem_append_right m List.mem_cons_self)
  · by_cases rest : m ++ l = []
    · obtain ⟨rfl, rfl⟩ := List.append_eq_nil_iff.mp rest
      exact ⟨rfl, trivial⟩
    · refine Ring.rotate (turned.tail single'.of_cons rest ?_ ?_)
      · exact fun a _ => removed.nextFrees a
      · exact fun a _ => removed.prevFrees a

/-- The last buffer keeps its links, and `freeList` stays at it. -/
theorem FreeRing.alone (freeRing : FreeRing c [b]) : c'.freeList = b ∧ c'.prevFrees b = some b := by
  have links := freeRing.ring.links
  have start : b = c.freeList := Option.some.inj (freeRing.first (List.cons_ne_nil b []))
  have next : nf = b := Option.some.inj (removed.nextFree.symm.trans links.1)
  constructor
  · exact removed.freeList.trans ((if_pos start.symm).trans next)
  · exact (removed.prevFrees b).trans ((if_pos links.1).trans links.2)

theorem Queues.remove (queues : Queues c on free chain) (member : on b) :
    ∃ l m, free = l ++ b :: m ∧
      Queues c' (fun a => on a ∧ a ≠ b) (l ++ m) fun k => (chain k).erase b := by
  obtain ⟨l, m, rfl⟩ := List.append_of_mem ((queues.listed b).mpr member)
  refine ⟨l, m, rfl, ?_⟩
  have out := queues.freeRing.remove removed
  have fresh : b ∉ l ++ m := (List.nodup_cons.mp (List.nodup_middle.mp queues.single)).1
  constructor
  · intro a
    rw [← queues.listed]
    simp only [List.mem_append, List.mem_cons] at fresh ⊢
    constructor
    · intro inside
      refine ⟨by tauto, ?_⟩
      rintro rfl
      exact fresh inside
    · tauto
  · exact out.single
  · exact out.first
  · exact out.ring
  · intro k a
    have nodup : (chain k).Nodup := (queues.forth k).nodup
    rw [nodup.mem_erase_iff, queues.chained, removed.bucket, removed.heads]
    tauto
  · exact fun k => (queues.remove_chain removed member k).1
  · exact fun k => (queues.remove_chain removed member k).2
  · rintro a ⟨inside, _⟩ unused
    rw [removed.heads] at unused
    have bare := queues.bare a inside unused
    have elsewhere : ¬ (c.nexts b = some a ∨ c.prevs b = some a) := by
      intro linked
      exact ((queues.chained _ a).mp (queues.neighbour member linked).2).2.1 unused
    rw [removed.nexts, removed.prevs, if_neg (not_or.mp elsewhere).2, if_neg (not_or.mp elsewhere).1]
    exact bare

end Removal

section Insertion

variable (inserted : Inserted c c' b)

include inserted

theorem Inserted.nexts (a : Addr) : c'.nexts a =
    if a = b then if (c.heads b).dev = 0 then none else c.hashTable (c.bucket b) else c.nexts a := by
  rw [Cache.nexts, inserted.heads]

theorem Inserted.prevs (a : Addr) : c'.prevs a =
    if (c.heads b).dev ≠ 0 ∧ c.hashTable (c.bucket b) = some a then some b
    else if a = b then none else c.prevs a := by
  rw [Cache.prevs, inserted.heads]

theorem Inserted.bucket (a : Addr) : c'.bucket a = c.bucket a := by
  simp only [Cache.bucket, inserted.heads]

theorem FreeRing.insert (freeRing : FreeRing c free) (off : b ∉ free)
    (alone : free = [] → c.freeList = b ∧ c.prevFrees b = some b) : FreeRing c' (free ++ [b]) := by
  have forth : ∀ a, c'.nextFrees a = if c.prevFrees c.freeList = some a then some b
      else if a = b then some c.freeList else c.nextFrees a := by
    intro a
    rw [Cache.nextFrees, inserted.heads]
  have back : ∀ a, c'.prevFrees a = if a = c.freeList then some b
      else if a = b then c.prevFrees c.freeList else c.prevFrees a := by
    intro a
    rw [Cache.prevFrees, inserted.heads]
  -- in an empty ring the links of the buffer lead to itself already
  constructor
  · rw [← List.concat_eq_append]
    exact freeRing.single.concat off
  · intro _
    rw [inserted.freeList]
    cases free with
    | nil => rw [(alone rfl).1]; rfl
    | cons y l => exact freeRing.first (List.cons_ne_nil y l)
  · cases free with
    | nil =>
      obtain ⟨start, prev⟩ := alone rfl
      refine ⟨⟨rfl, ?_⟩, ?_, trivial⟩
      · rw [forth, if_pos (by rw [start, prev])]
        rfl
      · rw [back, if_pos start.symm]
        rfl
    | cons y l =>
      have start : y = c.freeList := Option.some.inj (freeRing.first (List.cons_ne_nil y l))
      rw [← start] at forth back
      exact freeRing.ring.insert freeRing.single off forth back

/-- The head becomes the first one of its chain. -/
theorem Queues.insert_chain (queues : Queues c on free chain) (off : ¬ on b) (k : Nat) :
    Seg c'.nexts (c'.hashTable k)
      (if (c.heads b).dev ≠ 0 ∧ c.bucket b = k then b :: chain k else chain k) none ∧
    Back c'.prevs none (if (c.heads b).dev ≠ 0 ∧ c.bucket b = k then b :: chain k else chain k) := by
  have apart : ∀ k, ∀ a ∈ chain k, a ≠ b := by
    rintro k a inside rfl
    exact off ((queues.chained k a).mp inside).1
  have forth : Seg c'.nexts (c.hashTable k) (chain k) none := by
    refine (queues.forth k).congr fun a inside => ?_
    rw [inserted.nexts, if_neg (apart k a inside)]
  have table := inserted.hashTable
  -- only the chain of the buffer's own bucket gets a new first element
  split
  next here =>
    obtain ⟨used, rfl⟩ := here
    rw [if_neg used] at table
    constructor
    · refine ⟨?_, ?_⟩
      · rw [table, Function.update_self]
      · rw [inserted.nexts, if_pos rfl, if_neg used]
        exact forth
    · have head := (queues.forth (c.bucket b)).head
      rw [Option.or_none] at head
      refine ⟨?_, ?_⟩
      · rw [inserted.prevs, if_neg, if_pos rfl]
        rintro ⟨_, first⟩
        exact apart _ b (List.mem_of_mem_head? (head ▸ first)) rfl
      · have back := queues.back (c.bucket b)
        cases whole : chain (c.bucket b) with
        | nil => trivial
        | cons y l =>
          rw [whole] at back head
          have single := (queues.forth (c.bucket b)).nodup
          rw [whole] at single
          refine back.restart (fun a inside => ?_) ?_
          · rw [inserted.prevs, if_neg, if_neg (apart (c.bucket b) a (by simp [whole, inside]))]
            rintro ⟨_, first⟩
            obtain rfl : y = a := Option.some.inj (head.symm.trans first)
            exact (List.nodup_cons.mp single).1 inside
          · rw [inserted.prevs, if_pos ⟨used, head⟩]
  next elsewhere =>
    constructor
    · have start : c'.hashTable k = c.hashTable k := by
        rw [table]
        split
        next => rfl
        next used => exact Function.update_of_ne (fun same => elsewhere ⟨used, same.symm⟩) _ _
      rw [start]
      exact forth
    · refine (queues.back k).congr fun a inside => ?_
      rw [inserted.prevs, if_neg, if_neg (apart k a inside)]
      rintro ⟨used, first⟩
      have head := (queues.forth (c.bucket b)).head
      rw [first, Option.or_none] at head
      have own := queues.bucket_eq (List.mem_of_mem_head? head.symm)
      exact elsewhere ⟨used, own.symm.trans (queues.bucket_eq inside)⟩

theorem Queues.insert (queues : Queues c on free chain) (off : ¬ on b)
    (alone : free = [] → c.freeList = b ∧ c.prevFrees b = some b) :
    Queues c' (fun a => on a ∨ a = b) (free ++ [b])
      fun k => if (c.heads b).dev ≠ 0 ∧ c.bucket b = k then b :: chain k else chain k := by
  have dev : ∀ a, (c'.heads a).dev = (c.heads a).dev := by
    intro a
    rw [inserted.heads]
  have back := queues.freeRing.insert inserted (fun inside => off ((queues.listed b).mp inside)) alone
  constructor
  · intro a
    rw [List.mem_append, List.mem_singleton, queues.listed]
  · exact back.single
  · exact back.first
  · exact back.ring
  · -- a buffer without a device is in no chain
    intro k a
    rw [dev, inserted.bucket]
    by_cases here : a = b
    · subst here
      have out : a ∉ chain k := fun inside => off ((queues.chained k a).mp inside).1
      split <;> simp_all
    · have old := queues.chained k a
      split <;> simp_all
  · exact fun k => (queues.insert_chain inserted off k).1
  · exact fun k => (queues.insert_chain inserted off k).2
  · intro a inside unused
    rw [dev] at unused
    by_cases here : a = b
    · subst here
      rw [inserted.nexts, inserted.prevs, if_pos rfl, if_pos unused, if_neg fun both => both.1 unused, if_pos rfl]
      exact ⟨rfl, rfl⟩
    · rw [inserted.nexts, inserted.prevs, if_neg here, if_neg, if_neg here]
      · exact queues.bare a (inside.resolve_right here) unused
      · rintro ⟨_, first⟩
        have head := (queues.forth (c.bucket b)).head
        rw [first, Option.or_none] at head
        exact ((queues.chained _ a).mp (List.mem_of_mem_head? head.symm)).2.1 unused

end Insertion

/-- What `claim` makes of the fields outside the queues. -/
structure Claimed (c c' : Cache) (b : Addr) (dev block : BitVec 32) : Prop where
  dev : (c'.heads b).dev = dev.setWidth 16
  blockNr : (c'.heads b).blockNr = block
  count : (c'.heads b).count = 1
  dirt : (c'.heads b).dirt = false
  uptodate : (c'.heads b).uptodate = false
  lock : ∀ a, (c'.heads a).lock = (c.heads a).lock
  data : ∀ a, (c'.heads a).data = (c.heads a).data
  others : ∀ a, a ≠ b → (c'.heads a).dev = (c.heads a).dev ∧ (c'.heads a).blockNr = (c.heads a).blockNr ∧
    (c'.heads a).count = (c.heads a).count ∧ (c'.heads a).dirt = (c.heads a).dirt ∧
    (c'.heads a).uptodate = (c.heads a).uptodate
  nrBuffers : c'.nrBuffers = c.nrBuffers

/-- The steps of `claim`. -/
theorem claim_steps {dev block : BitVec 32} (claimed : c.claim b dev block = some c') :
    ∃ c1 pf nf, Removed (c.setHead b { c.heads b with count := 1, dirt := false, uptodate := false }) c1 b pf nf ∧
      Inserted (c1.setHead b { c1.heads b with dev := dev.setWidth 16, blockNr := block }) c' b := by
  obtain ⟨c1, removed, rest⟩ := Option.bind_eq_some_iff.mp claimed
  obtain ⟨pf, nf, spec⟩ := removeFromQueues_spec removed
  rw [← Option.some.inj rest]
  exact ⟨c1, pf, nf, spec, insertIntoQueues_spec _ b⟩

theorem claim_spec {dev block : BitVec 32} (claimed : c.claim b dev block = some c') :
    Claimed c c' b dev block := by
  obtain ⟨c1, pf, nf, removed, inserted⟩ := claim_steps claimed
  constructor
  · rw [inserted.heads, setHead_heads, if_pos rfl]
  · rw [inserted.heads, setHead_heads, if_pos rfl]
  · rw [inserted.heads, setHead_heads, if_pos rfl, removed.heads, setHead_heads, if_pos rfl]
  · rw [inserted.heads, setHead_heads, if_pos rfl, removed.heads, setHead_heads, if_pos rfl]
  · rw [inserted.heads, setHead_heads, if_pos rfl, removed.heads, setHead_heads, if_pos rfl]
  · intro a
    by_cases here : a = b <;> simp only [inserted.heads, setHead_heads, removed.heads, here, if_true, if_false]
  · intro a
    by_cases here : a = b <;> simp only [inserted.heads, setHead_heads, removed.heads, here, if_true, if_false]
  · intro a other
    simp only [inserted.heads, setHead_heads, removed.heads, other, if_false, and_self]
  · rw [inserted.nrBuffers]
    exact removed.nrBuffers

/-- The claimed buffer is the first one of its chain. -/
theorem claim_first {dev block : BitVec 32} (claimed : c.claim b dev block = some c')
    (used : dev.setWidth 16 ≠ 0) : c'.hashTable (hashfn (dev.setWidth 16) block) = some b := by
  obtain ⟨c1, pf, nf, _, inserted⟩ := claim_steps claimed
  have named : (c1.setHead b { c1.heads b with dev := dev.setWidth 16, blockNr := block }).heads b =
      { c1.heads b with dev := dev.setWidth 16, blockNr := block } := (setHead_heads _).trans (if_pos rfl)
  have table := inserted.hashTable
  rw [Cache.bucket, named] at table
  rw [table, if_neg used, Function.update_self]

/-- Between its two calls the buffer is in neither queue, and has its new identity. -/
theorem Queues.takeOut {c1 : Cache} (queues : Queues c on free chain) (member : on b)
    (removed : Removed c c1 b pf nf) (dev : BitVec 16) (block : BitVec 32) :
    ∃ rest, Queues (c1.setHead b { c1.heads b with dev, blockNr := block }) (fun a => on a ∧ a ≠ b) rest
        (fun k => (chain k).erase b) ∧
      (rest = [] → (c1.setHead b { c1.heads b with dev, blockNr := block }).freeList = b ∧
        (c1.setHead b { c1.heads b with dev, blockNr := block }).prevFrees b = some b) := by
  obtain ⟨l, m, whole, out⟩ := queues.remove removed member
  refine ⟨l ++ m, out.congr (fun a there => ?_) rfl rfl, fun alone => ?_⟩
  · rw [setHead_heads, if_neg there.2]
    exact ⟨rfl, rfl, rfl, rfl, rfl, rfl⟩
  · obtain ⟨rfl, rfl⟩ := List.append_eq_nil_iff.mp alone
    obtain rfl : free = [b] := whole
    have kept := queues.freeRing.alone removed
    refine ⟨kept.1, ?_⟩
    rw [prevFrees, setHead_heads, if_pos rfl]
    exact kept.2

theorem Queues.marked (queues : Queues c on free chain) :
    Queues (c.setHead b { c.heads b with count := 1, dirt := false, uptodate := false }) on free chain :=
  queues.setHead ⟨rfl, rfl, rfl, rfl, rfl, rfl⟩

/-- `claim` keeps the queues. -/
theorem claim_queues {dev block : BitVec 32} (queues : Queues c on free chain) (member : on b)
    (claimed : c.claim b dev block = some c') : ∃ free' chain', Queues c' on free' chain' := by
  obtain ⟨c1, pf, nf, removed, inserted⟩ := claim_steps claimed
  obtain ⟨rest, out, alone⟩ := queues.marked.takeOut member removed (dev.setWidth 16) block
  have back := out.insert inserted (fun both => both.2 rfl) alone
  have same : (fun a => (on a ∧ a ≠ b) ∨ a = b) = on := by
    funext a
    by_cases here : a = b
    · subst here
      simp [member]
    · simp [here]
  rw [same] at back
  exact ⟨_, _, back⟩

/-- A head of the free list can be taken out. -/
theorem FreeRing.removable (freeRing : FreeRing c free) (member : b ∈ free) :
    ∃ c', c.removeFromQueues b = some c' := by
  obtain ⟨⟨nf, _, next⟩, pf, _, prev⟩ := freeRing.ring.closed member
  exact removeFromQueues_isSome prev next

/-- A head of the free list can be claimed. -/
theorem claim_isSome (queues : Queues c on free chain) (member : on b) (dev block : BitVec 32) :
    ∃ c', c.claim b dev block = some c' := by
  obtain ⟨c1, removed⟩ := queues.marked.freeRing.removable ((queues.listed b).mpr member)
  exact ⟨_, Option.bind_eq_some_iff.mpr ⟨c1, removed, rfl⟩⟩

/-! ### Searching -/

/-- The result of a search does not depend on the fuel. -/
theorem findBufferLoop_unique {dev block : BitVec 32} {p : Option Addr} {fuel fuel' : Nat} {x y : Option Addr}
    (left : c.findBufferLoop dev block fuel p = some x) (right : c.findBufferLoop dev block fuel' p = some y) :
    x = y := by
  induction fuel generalizing p fuel' with
  | zero => cases left
  | succ fuel ih =>
    cases fuel' with
    | zero => cases right
    | succ fuel' =>
      cases p with
      | none => exact Option.some.inj (left.symm.trans right)
      | some tmp =>
        rw [findBufferLoop] at left right
        split at left
        next id =>
          rw [if_pos id] at right
          exact Option.some.inj (left.symm.trans right)
        next other =>
          rw [if_neg other] at right
          exact ih left right

theorem findBufferLoop_hit {dev block : BitVec 32} {p : Option Addr} {l : List Addr} {fuel : Nat}
    (seg : Seg c.nexts p l none) (hit : c.findBufferLoop dev block fuel p = some (some a)) :
    a ∈ l ∧ (c.heads a).dev.setWidth 32 = dev ∧ (c.heads a).blockNr = block := by
  induction l generalizing p fuel with
  | nil =>
    obtain rfl : p = none := seg
    cases fuel <;> simp [findBufferLoop] at hit
  | cons x l ih =>
    obtain ⟨rfl, tail⟩ := seg
    cases fuel with
    | zero => cases hit
    | succ fuel =>
      rw [findBufferLoop] at hit
      split at hit
      next id =>
        obtain rfl : x = a := Option.some.inj (Option.some.inj hit)
        exact ⟨List.mem_cons_self, id⟩
      next =>
        obtain ⟨member, id⟩ := ih tail hit
        exact ⟨List.mem_cons_of_mem x member, id⟩

theorem findBufferLoop_miss {dev block : BitVec 32} {p : Option Addr} {l : List Addr} {fuel : Nat}
    (seg : Seg c.nexts p l none) (miss : c.findBufferLoop dev block fuel p = some none) :
    ∀ a ∈ l, ¬ ((c.heads a).dev.setWidth 32 = dev ∧ (c.heads a).blockNr = block) := by
  induction l generalizing p fuel with
  | nil => simp
  | cons x l ih =>
    obtain ⟨rfl, tail⟩ := seg
    cases fuel with
    | zero => cases miss
    | succ fuel =>
      rw [findBufferLoop] at miss
      split at miss
      next => cases miss
      next other =>
        intro a member
        rcases List.mem_cons.mp member with rfl | member
        · exact other
        · exact ih tail miss a member

/-- There are no more heads than buffers. -/
theorem length_le_nrBuffers {l : List Addr} (single : l.Nodup) (inside : ∀ a ∈ l, c.IsHead a) :
    l.length ≤ c.nrBuffers := by
  have subset : l ⊆ (List.range c.nrBuffers).map headAddr := by
    intro a member
    obtain ⟨i, small, place⟩ := inside a member
    exact List.mem_map.mpr ⟨i, List.mem_range.mpr small, place⟩
  simpa using (List.subperm_of_subset single subset).length_le

theorem findBufferLoop_total {dev block : BitVec 32} {p : Option Addr} {l : List Addr} {fuel : Nat}
    (seg : Seg c.nexts p l none) (enough : l.length < fuel) :
    ∃ found, c.findBufferLoop dev block fuel p = some found := by
  induction l generalizing p fuel with
  | nil =>
    obtain rfl : p = none := seg
    cases fuel with
    | zero => cases enough
    | succ fuel => exact ⟨none, rfl⟩
  | cons x l ih =>
    obtain ⟨rfl, tail⟩ := seg
    cases fuel with
    | zero => cases enough
    | succ fuel =>
      rw [findBufferLoop]
      split
      · exact ⟨some x, rfl⟩
      · exact ih tail (Nat.lt_of_succ_lt_succ enough)

/-- A search through a chain comes to an end. -/
theorem Queues.findBuffer_total (queues : Queues c c.IsHead free chain) (dev block : BitVec 32) :
    ∃ found, c.findBuffer (c.nrBuffers + 1) dev block = some found := by
  have forth := queues.forth (hashfn (dev.setWidth 16) block)
  have short := length_le_nrBuffers forth.nodup fun a member => ((queues.chained _ a).mp member).1
  exact findBufferLoop_total forth (Nat.lt_succ_of_le short)

/-- The buffer that `findBuffer` returns is in the queues and has the identity. -/
theorem Queues.findBuffer_hit (queues : Queues c on free chain) {dev block : BitVec 32} {fuel : Nat}
    (hit : c.findBuffer fuel dev block = some (some a)) :
    on a ∧ (c.heads a).dev ≠ 0 ∧ (c.heads a).dev.setWidth 32 = dev ∧ (c.heads a).blockNr = block := by
  obtain ⟨member, id⟩ := findBufferLoop_hit (queues.forth _) hit
  have chained := (queues.chained _ a).mp member
  exact ⟨chained.1, chained.2.1, id⟩

/-- Where `findBuffer` returns NULL, no buffer with a device has the identity. -/
theorem Queues.findBuffer_miss (queues : Queues c on free chain) {dev block : BitVec 32} {fuel : Nat}
    (miss : c.findBuffer fuel dev block = some none) (member : on a) (used : (c.heads a).dev ≠ 0) :
    ¬ ((c.heads a).dev.setWidth 32 = dev ∧ (c.heads a).blockNr = block) := by
  rintro ⟨rfl, rfl⟩
  have bucket : c.bucket a = hashfn (((c.heads a).dev.setWidth 32).setWidth 16) (c.heads a).blockNr := by
    rw [BitVec.setWidth_setWidth_of_le _ (by omega)]
    simp [Cache.bucket]
  exact findBufferLoop_miss (queues.forth _) miss a ((queues.chained _ a).mpr ⟨member, used, bucket⟩) ⟨rfl, rfl⟩

/-- The search from the node `tmp` of the free list on returns `bh` or a later node. -/
theorem victimLoop_mem {tmp : Addr} {l : List Addr} {bh : Option Addr} {fuel : Nat}
    (seg : Seg c.nextFrees (some tmp) (tmp :: l) (some c.freeList))
    (chosen : c.victimLoop fuel tmp bh = some (some a)) :
    (a ∈ tmp :: l ∧ (c.heads a).count = 0) ∨ bh = some a := by
  -- the best so far is an unused buffer of the part that was searched
  induction fuel generalizing tmp l bh with
  | zero => cases chosen
  | succ fuel ih =>
    have now : (if (c.heads tmp).count = 0 ∧ c.better bh tmp then some tmp else bh) = some a →
        (a ∈ tmp :: l ∧ (c.heads a).count = 0) ∨ bh = some a := by
      split
      next better =>
        intro same
        obtain rfl : tmp = a := Option.some.inj same
        exact .inl ⟨List.mem_cons_self, better.1⟩
      next => exact .inr
    simp only [victimLoop] at chosen
    split at chosen
    · exact now (Option.some.inj chosen)
    · split at chosen
      · cases chosen
      next next link =>
        split at chosen
        · exact now (Option.some.inj chosen)
        next further =>
          have tail : Seg c.nextFrees (some next) l (some c.freeList) := link ▸ seg.2
          cases l with
          | nil => exact absurd (Option.some.inj tail) further
          | cons x l =>
            obtain rfl : next = x := Option.some.inj tail.1
            rcases ih tail chosen with ⟨member, unused⟩ | before
            · exact .inl ⟨List.mem_cons_of_mem tmp member, unused⟩
            · exact now before

/-- The victim of `getblk` is a free head. -/
theorem Queues.victim_mem (queues : Queues c on free chain) (some_on : ∃ a, on a) {fuel : Nat}
    (chosen : c.victim fuel = some (some b)) : on b ∧ (c.heads b).count = 0 := by
  obtain ⟨a, member⟩ := some_on
  have inside := (queues.listed a).mpr member
  cases free with
  | nil => cases inside
  | cons y l =>
    have start : y = c.freeList := Option.some.inj (queues.first (List.cons_ne_nil y l))
    subst start
    rcases victimLoop_mem queues.ring.1 chosen with ⟨listed, unused⟩ | old
    · exact ⟨(queues.listed b).mp listed, unused⟩
    · cases old

/-- The unused ones of some buffers. -/
def unused (c : Cache) (l : List Addr) : List Addr := l.filter fun a => (c.heads a).count = 0

theorem mem_unused {l : List Addr} : a ∈ c.unused l ↔ a ∈ l ∧ (c.heads a).count = 0 := by
  simp only [unused, List.mem_filter, decide_eq_true_eq]

/-- The better one of two unused buffers, the earlier one if they are equal. -/
def argBadness (c : Cache) : Option Addr → Addr → Option Addr :=
  List.argAux fun a b => badness (c.heads a) < badness (c.heads b)

/-- One round of the loop. -/
theorem foldl_unused_cons (tmp : Addr) (l : List Addr) (bh : Option Addr) :
    (c.unused (tmp :: l)).foldl c.argBadness bh = (c.unused l).foldl c.argBadness
      (if (c.heads tmp).count = 0 ∧ c.better bh tmp then some tmp else bh) := by
  have round : (if (c.heads tmp).count = 0 ∧ c.better bh tmp then some tmp else bh) =
      if (c.heads tmp).count = 0 then c.argBadness bh tmp else bh := by
    by_cases count : (c.heads tmp).count = 0
    · cases bh with
      | none => rw [if_pos ⟨count, rfl⟩, if_pos count]; rfl
      | some b => simp only [count, better, argBadness, List.argAux, true_and, decide_eq_true_eq, if_true]
    · rw [if_neg fun both => count both.1, if_neg count]
  rw [round, unused, unused, List.foldl_filter, List.foldl_filter, List.foldl_cons]
  simp only [decide_eq_true_eq]

/-- No buffer is better than one that is clean and not locked. -/
theorem foldl_argBadness_zero (clean : badness (c.heads a) = 0) (l : List Addr) :
    l.foldl c.argBadness (some a) = some a := by
  induction l with
  | nil => rfl
  | cons x l ih =>
    have worse : c.argBadness (some a) x = some a := by
      refine if_neg ?_
      change ¬ badness (c.heads x) < badness (c.heads a)
      rw [clean]
      exact Nat.not_lt_zero _
    rw [List.foldl_cons, worse, ih]

/-- The search from the node `tmp` on comes to an end, with the best unused buffer. -/
theorem victimLoop_eq {tmp : Addr} {l : List Addr} {bh : Option Addr} {fuel : Nat}
    (seg : Seg c.nextFrees (some tmp) (tmp :: l) (some c.freeList)) (start : c.freeList ∉ l)
    (enough : l.length < fuel) :
    c.victimLoop fuel tmp bh = some ((c.unused (tmp :: l)).foldl c.argBadness bh) := by
  -- the induction is on the part of the ring that is left
  induction l generalizing tmp bh fuel with
  | nil =>
    cases fuel with
    | zero => cases enough
    | succ fuel =>
      have last : (c.heads tmp).nextFree = some c.freeList := seg.2
      simp only [victimLoop, last, if_true, ite_self]
      rw [foldl_unused_cons]
      rfl
  | cons x l ih =>
    cases fuel with
    | zero => cases enough
    | succ fuel =>
      have next : (c.heads tmp).nextFree = some x := seg.2.1
      have further : ¬ x = c.freeList := fun same => start (same ▸ List.mem_cons_self)
      have tail : Seg c.nextFrees (some x) (x :: l) (some c.freeList) := next ▸ seg.2
      simp only [victimLoop, next, if_neg further]
      rw [foldl_unused_cons tmp]
      split
      -- the loop breaks off at a clean and unlocked buffer
      next best => rw [if_pos best.1, foldl_argBadness_zero best.2]
      next =>
        exact ih tail (fun member => start (List.mem_cons_of_mem x member)) (Nat.lt_of_succ_lt_succ enough)

/-- The victim is the first unused buffer of the least badness. -/
theorem FreeRing.victim_eq (freeRing : FreeRing c free) (nonempty : free ≠ []) {fuel : Nat}
    (enough : free.length ≤ fuel) :
    c.victim fuel = some ((c.unused free).argmin fun a => badness (c.heads a)) := by
  cases free with
  | nil => exact absurd rfl nonempty
  | cons y l =>
    have start : y = c.freeList := Option.some.inj (freeRing.first nonempty)
    subst start
    exact victimLoop_eq freeRing.ring.1 (List.nodup_cons.mp freeRing.single).1 enough

/-- While a head is free there is a victim. -/
theorem Queues.victim_total (queues : Queues c c.IsHead free chain) {a : Addr} (isHead : c.IsHead a)
    (count : (c.heads a).count = 0) : ∃ b, c.victim (c.nrBuffers + 1) = some (some b) := by
  have inside := (queues.listed a).mpr isHead
  have short := length_le_nrBuffers queues.single fun a member => (queues.listed a).mp member
  rw [queues.freeRing.victim_eq (List.ne_nil_of_mem inside) (Nat.le_succ_of_le short)]
  cases best : (c.unused free).argmin fun a => badness (c.heads a) with
  | none =>
    rw [List.argmin_eq_none] at best
    exact absurd (mem_unused.mpr ⟨inside, count⟩) (best ▸ List.not_mem_nil)
  | some b => exact ⟨b, rfl⟩

end Moves

/-- The representation invariant: all heads are in the queues, and no two have
the same identity. -/
structure WellFormed (c : Cache) : Prop where
  queues : ∃ free chain, Queues c c.IsHead free chain
  identity : ∀ a b, c.IsHead a → c.IsHead b → (c.heads a).dev ≠ 0 → (c.heads b).dev = (c.heads a).dev →
    (c.heads b).blockNr = (c.heads a).blockNr → b = a

theorem WellFormed.setHead {c : Cache} {b : Addr} {h : BufferHead} (wellFormed : c.WellFormed)
    (same : SameQueues (c.heads b) h) : (c.setHead b h).WellFormed := by
  obtain ⟨⟨free, chain, queues⟩, identity⟩ := wellFormed
  have named : ∀ a, ((c.setHead b h).heads a).dev = (c.heads a).dev ∧
      ((c.setHead b h).heads a).blockNr = (c.heads a).blockNr := by
    intro a
    rw [setHead_heads]
    split
    next here => rw [here]; exact ⟨same.dev, same.blockNr⟩
    next => exact ⟨rfl, rfl⟩
  refine ⟨⟨free, chain, queues.setHead same⟩, fun x y isHead isHead' used sameDev sameBlock => ?_⟩
  rw [(named x).1] at used
  rw [(named x).1, (named y).1] at sameDev
  rw [(named x).2, (named y).2] at sameBlock
  exact identity x y isHead isHead' used sameDev sameBlock

/-- A head takes an identity that no other head has. -/
theorem WellFormed.claim {c c' : Cache} {b : Addr} {dev : BitVec 16} {block : BitVec 32} (wellFormed : c.WellFormed)
    (isHead : c.IsHead b) (claimed : c.claim b (dev.setWidth 32) block = some c')
    (miss : ∀ a, c.IsHead a → (c.heads a).dev ≠ 0 → ¬ ((c.heads a).dev = dev ∧ (c.heads a).blockNr = block)) :
    c'.WellFormed := by
  obtain ⟨⟨free, chain, queues⟩, identity⟩ := wellFormed
  have spec := claim_spec claimed
  have whole : (dev.setWidth 32).setWidth 16 = dev := by
    rw [BitVec.setWidth_setWidth_of_le _ (by omega), BitVec.setWidth_eq]
  have sameHeads : c'.IsHead = c.IsHead := by
    funext a
    simp only [IsHead, spec.nrBuffers]
  -- no other buffer had the block, so the claimed one is the only one for it
  constructor
  · rw [sameHeads]
    exact claim_queues queues isHead claimed
  · intro x y inside inside' used sameDev sameBlock
    rw [sameHeads] at inside inside'
    by_cases first : x = b
    · by_cases second : y = b
      · exact second.trans first.symm
      · subst first
        obtain ⟨devY, blockY, _⟩ := spec.others y second
        rw [devY, spec.dev, whole] at sameDev
        rw [blockY, spec.blockNr] at sameBlock
        rw [spec.dev, whole, ← sameDev] at used
        exact absurd ⟨sameDev, sameBlock⟩ (miss y inside' used)
    · obtain ⟨devX, blockX, _⟩ := spec.others x first
      rw [devX] at used sameDev
      rw [blockX] at sameBlock
      by_cases second : y = b
      · subst second
        rw [spec.dev, whole] at sameDev
        rw [spec.blockNr] at sameBlock
        exact absurd ⟨sameDev.symm, sameBlock.symm⟩ (miss x inside used)
      · obtain ⟨devY, blockY, _⟩ := spec.others y second
        rw [devY] at sameDev
        rw [blockY] at sameBlock
        exact identity x y inside inside' used sameDev sameBlock

/-! ### The first queues -/

/-- The state that `initBuffer` leaves behind: no buffer has a device or a user. -/
structure Fresh (c : Cache) : Prop where
  nonempty : 1 ≤ c.nrBuffers
  queues : ∃ free chain, Queues c c.IsHead free chain
  unused : ∀ a, c.IsHead a → (c.heads a).dev = 0 ∧ (c.heads a).count = 0 ∧ (c.heads a).dirt = false ∧
    (c.heads a).lock = false ∧ (c.heads a).uptodate = false

theorem fresh_of_initBuffer {heads : Addr → BufferHead} {memSize : BitVec 32} {c : Cache}
    {stores : List (Addr × Nat)} (done : (boot heads).initBuffer memSize = some (c, stores))
    (nonempty : 1 ≤ c.nrBuffers) : Fresh c := by
  have enough := enough_of_initBuffer done
  have start : startBufferAddr = 1048576 := rfl
  -- the number of rounds is what the area has room for
  obtain ⟨k, fits, full⟩ : ∃ k, startBufferAddr + (sizeofHead + blockSize) * k ≤ Mm.installed memSize / 4 ∧
      Mm.installed memSize / 4 < startBufferAddr + (sizeofHead + blockSize) * (k + 1) := by
    simp only [sizeofHead, blockSize]
    exact ⟨(Mm.installed memSize / 4 - startBufferAddr) / 1060, by omega, by omega⟩
  obtain ⟨c', _, done', rounds, _⟩ := initBuffer_spec heads enough fits full
  obtain ⟨rfl, _⟩ := Prod.mk.inj (Option.some.inj (done.symm.trans done'))
  have count : c'.nrBuffers = k := by
    rw [rounds.count]
    exact Nat.zero_add k
  obtain ⟨n, rfl⟩ : ∃ n, k = n + 1 := by
    change 1 ≤ c'.nrBuffers at nonempty
    exact ⟨k - 1, by omega⟩
  rw [headAddr_pred] at nonempty ⊢
  have heads' : ∀ i < n + 1, ((c'.closeRing (headAddr n)).heads (headAddr i)).dev = 0 ∧
      ((c'.closeRing (headAddr n)).heads (headAddr i)).count = 0 ∧
      ((c'.closeRing (headAddr n)).heads (headAddr i)).dirt = false ∧
      ((c'.closeRing (headAddr n)).heads (headAddr i)).lock = false ∧
      ((c'.closeRing (headAddr n)).heads (headAddr i)).uptodate = false ∧
      ((c'.closeRing (headAddr n)).heads (headAddr i)).next = none ∧
      ((c'.closeRing (headAddr n)).heads (headAddr i)).prev = none := by
    intro i small
    have fresh := rounds.heads i small
    change c'.heads (headAddr i) = freshHead _ (headAddr i) _ at fresh
    simp only [closeRing_head, fresh, freshHead, and_self]
  have isHead : ∀ a, (c'.closeRing (headAddr n)).IsHead a ↔ a ∈ (List.range (n + 1)).map headAddr := by
    intro a
    simp only [IsHead, List.mem_map, List.mem_range]
    rw [show (c'.closeRing (headAddr n)).nrBuffers = n + 1 from count]
  -- all heads are unused and in the ring, and no chain has any
  refine ⟨nonempty, ⟨(List.range (n + 1)).map headAddr, fun _ => [], ?_⟩, ?_⟩
  · constructor
    · exact fun a => (isHead a).symm
    · exact List.nodup_range.map fun i j same => headAddr_inj.mp same
    · intro _
      rw [List.range_succ_eq_map]
      rfl
    · apply ring_range
      · intro i small
        rw [nextFrees, (ring_of_rounds rounds (by omega)).2.1, if_neg (by omega)]
      · intro i small
        rw [prevFrees, (ring_of_rounds rounds (by omega)).2.2, if_neg (by omega), Nat.add_sub_cancel]
      · rw [nextFrees, (ring_of_rounds rounds (Nat.le_refl n)).2.1, if_pos rfl]
      · rw [prevFrees, (ring_of_rounds rounds (Nat.zero_le n)).2.2, if_pos rfl]
    · rintro k a
      simp only [List.not_mem_nil, false_iff, not_and]
      rintro ⟨i, small, rfl⟩ used
      rw [show (c'.closeRing (headAddr n)).nrBuffers = n + 1 from count] at small
      exact absurd (heads' i small).1 used
    · exact fun _ => rfl
    · exact fun _ => trivial
    · rintro a ⟨i, small, rfl⟩ _
      rw [show (c'.closeRing (headAddr n)).nrBuffers = n + 1 from count] at small
      exact (heads' i small).2.2.2.2.2
  · rintro a ⟨i, small, rfl⟩
    rw [show (c'.closeRing (headAddr n)).nrBuffers = n + 1 from count] at small
    have fields := heads' i small
    exact ⟨fields.1, fields.2.1, fields.2.2.1, fields.2.2.2.1, fields.2.2.2.2.1⟩

end OperatorSystem.Fs.Cache
