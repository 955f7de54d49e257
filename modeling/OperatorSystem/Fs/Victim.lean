import OperatorSystem.Fs.Queues

/-!
# The choice of a buffer in `getblk`

`Best` is what the scan of the free list is for: an unused buffer of the least
badness, and of these the one that the ring reaches first from `freeList` on. The
scan finds it in one round of the ring, and a claimed buffer goes to the end.
-/

namespace OperatorSystem.Fs.Cache

open PointerList

variable {c : Cache} {free : List Addr} {b : Addr}

/-- `b` is unused, better than the unused buffers before it, and no worse than those behind it. -/
structure Best (c : Cache) (free : List Addr) (b : Addr) : Prop where
  unused : (c.heads b).count = 0
  split : ∃ l m, free = l ++ b :: m ∧
    (∀ a ∈ l, (c.heads a).count = 0 → badness (c.heads b) < badness (c.heads a)) ∧
    ∀ a ∈ m, (c.heads a).count = 0 → badness (c.heads b) ≤ badness (c.heads a)

theorem unused_append (l m : List Addr) : c.unused (l ++ m) = c.unused l ++ c.unused m :=
  List.filter_append ..

/-- The place of a buffer among the unused ones. -/
theorem idxOf_unused {l m : List Addr} (single : (l ++ b :: m).Nodup) (count : (c.heads b).count = 0) :
    (c.unused (l ++ b :: m)).idxOf b = (c.unused l).length := by
  have parts : c.unused (b :: m) = b :: c.unused m := List.filter_cons_of_pos (by simpa using count)
  have here : b ∉ c.unused l := by
    intro twice
    exact (List.nodup_append.mp single).2.2 b (mem_unused.mp twice).1 b List.mem_cons_self rfl
  rw [unused_append, parts, List.idxOf_append_of_notMem here, List.idxOf_cons_self, Nat.add_zero]

theorem idxOf_unused_left {a : Addr} {l m : List Addr} (before : a ∈ l) (count : (c.heads a).count = 0) :
    (c.unused (l ++ m)).idxOf a < (c.unused l).length := by
  have there : a ∈ c.unused l := mem_unused.mpr ⟨before, count⟩
  rw [unused_append, List.idxOf_append_of_mem there]
  exact List.idxOf_lt_length_of_mem there

theorem idxOf_unused_right {a : Addr} {l m : List Addr} (outside : a ∉ l) :
    (c.unused l).length ≤ (c.unused (l ++ m)).idxOf a := by
  have there : a ∉ c.unused l := fun inside => outside (mem_unused.mp inside).1
  rw [unused_append, List.idxOf_append_of_notMem there]
  exact Nat.le_add_right _ _

/-- The leftmost minimum of the unused buffers, by its place among all buffers. -/
theorem argmin_unused_iff (single : free.Nodup) :
    (c.unused free).argmin (fun a => badness (c.heads a)) = some b ↔ Best c free b := by
  rw [List.argmin_eq_some_iff]
  constructor
  · rintro ⟨member, minimal, leftmost⟩
    obtain ⟨inside, count⟩ := mem_unused.mp member
    obtain ⟨l, m, rfl⟩ := List.append_of_mem inside
    refine ⟨count, l, m, rfl, fun a before idle => ?_, fun a behind idle => ?_⟩
    · by_contra worse
      -- `a` would be as good, and come first also among the unused ones
      have order := leftmost a (mem_unused.mpr ⟨List.mem_append_left _ before, idle⟩) (Nat.le_of_not_lt worse)
      rw [idxOf_unused single count] at order
      exact absurd (idxOf_unused_left before idle) (Nat.not_lt.mpr order)
    · exact minimal a (mem_unused.mpr ⟨List.mem_append_right l (List.mem_cons_of_mem b behind), idle⟩)
  · -- nothing before `b` is as good, so it comes first also among the unused ones
    rintro ⟨count, l, m, rfl, before, behind⟩
    refine ⟨mem_unused.mpr ⟨List.mem_append_right l List.mem_cons_self, count⟩, fun a member => ?_,
      fun a member same => ?_⟩
    · obtain ⟨inside, idle⟩ := mem_unused.mp member
      rcases List.mem_append.mp inside with left | right
      · exact Nat.le_of_lt (before a left idle)
      · rcases List.mem_cons.mp right with rfl | right
        · exact Nat.le_refl _
        · exact behind a right idle
    · have outside : a ∉ l := fun left => Nat.not_le.mpr (before a left (mem_unused.mp member).2) same
      rw [idxOf_unused single count]
      exact idxOf_unused_right outside

theorem FreeRing.setHead {h : BufferHead} (freeRing : FreeRing c free) (nextFree : h.nextFree = c.nextFrees b)
    (prevFree : h.prevFree = c.prevFrees b) : FreeRing (c.setHead b h) free := by
  refine ⟨freeRing.single, freeRing.first, ?_, ?_⟩
  · refine freeRing.ring.1.congr fun a _ => ?_
    rw [nextFrees, setHead_heads]
    split
    next here => rw [here, nextFree]
    next => rfl
  · refine freeRing.ring.2.congr fun a _ => ?_
    rw [prevFrees, setHead_heads]
    split
    next here => rw [here, prevFree]
    next => rfl

/-- A claimed buffer goes to the end of the ring. -/
theorem FreeRing.claim (freeRing : FreeRing c free) (member : b ∈ free) (dev block : BitVec 32) :
    ∃ c', c.claim b dev block = some c' ∧ FreeRing c' (free.erase b ++ [b]) := by
  have marked : FreeRing (c.setHead b { c.heads b with count := 1, dirt := false, uptodate := false }) free :=
    freeRing.setHead rfl rfl
  obtain ⟨c1, done⟩ := marked.removable member
  have claimed : c.claim b dev block =
      some ((c1.setHead b { c1.heads b with dev := dev.setWidth 16, blockNr := block }).insertIntoQueues b) := by
    rw [Cache.claim, done]
    rfl
  obtain ⟨pf, nf, removed⟩ := removeFromQueues_spec done
  obtain ⟨l, m, rfl⟩ := List.append_of_mem member
  have fresh : b ∉ l ++ m := (List.nodup_cons.mp (List.nodup_middle.mp freeRing.single)).1
  have erased : (l ++ b :: m).erase b = l ++ m := by
    rw [List.erase_append_right _ fun left => fresh (List.mem_append_left m left), List.erase_cons_head]
  have named : FreeRing (c1.setHead b { c1.heads b with dev := dev.setWidth 16, blockNr := block }) (l ++ m) :=
    (marked.remove removed).setHead rfl rfl
  refine ⟨_, claimed, ?_⟩
  rw [erased]
  refine named.insert (insertIntoQueues_spec _ b) fresh fun rest => ?_
  -- the ring of a single buffer still leads to it
  obtain ⟨rfl, rfl⟩ := List.append_eq_nil_iff.mp rest
  have kept := marked.alone removed
  refine ⟨kept.1, ?_⟩
  rw [prevFrees, setHead_heads, if_pos rfl]
  exact kept.2

/-- `getblk` sleeps only where all buffers are in use, chooses the best one elsewhere, and the
buffer that it claims leaves its place to the next one, and becomes the last of the ring. -/
theorem scan_and_claim (freeRing : FreeRing c free) (nonempty : free ≠ []) :
    (∃ bh, ∀ fuel, free.length ≤ fuel → c.victim fuel = some bh) ∧
      (∀ fuel, free.length ≤ fuel →
        (c.victim fuel = some none ↔ ∀ a ∈ free, (c.heads a).count ≠ 0) ∧
          ∀ b, c.victim fuel = some (some b) ↔ Best c free b) ∧
      ∀ b ∈ free, ∀ dev block, ∃ c', c.claim b dev block = some c' ∧ FreeRing c' (free.erase b ++ [b]) := by
  refine ⟨⟨_, fun fuel => freeRing.victim_eq nonempty⟩, fun fuel enough => ?_,
    fun b member => freeRing.claim member⟩
  rw [freeRing.victim_eq nonempty enough, Option.some.injEq, List.argmin_eq_none]
  constructor
  · rw [unused, List.filter_eq_nil_iff]
    simp only [decide_eq_true_eq]
  · intro b
    rw [Option.some.injEq]
    exact argmin_unused_iff freeRing.single

/-- A ring of three buffers: the first one is dirty, the second one in use, and the last one locked. -/
def threeBuffers : Cache where
  heads a :=
    { data := 0
      blockNr := 0
      dev := 0
      uptodate := false
      dirt := a == headAddr 0
      count := if a = headAddr 1 then 1 else 0
      lock := a == headAddr 2
      prev := none
      next := none
      prevFree := some (if a = headAddr 0 then headAddr 2 else a - sizeofHead)
      nextFree := some (if a = headAddr 2 then headAddr 0 else a + sizeofHead) }
  freeList := headAddr 0
  hashTable _ := none
  nrBuffers := 3

theorem threeBuffers_ring : FreeRing threeBuffers [headAddr 0, headAddr 1, headAddr 2] :=
  ⟨by decide, fun _ => rfl, ⟨rfl, rfl, rfl, rfl⟩, rfl, rfl, rfl, trivial⟩

theorem scan_and_claim_three : threeBuffers.victim 3 = some (some (headAddr 2)) := by
  have best : Best threeBuffers [headAddr 0, headAddr 1, headAddr 2] (headAddr 2) :=
    ⟨rfl, [headAddr 0, headAddr 1], [], rfl, by decide, by decide⟩
  exact (((scan_and_claim threeBuffers_ring (by decide)).2.1 3 (Nat.le_refl 3)).2 _).mpr best

end OperatorSystem.Fs.Cache
