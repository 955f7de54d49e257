import OperatorSystem.Fs.Buffer
import OperatorSystem.Mm.MainMemory

/-!
# The buffer area

The heads grow upwards from 1 MB and the blocks downwards from the end of the
first quarter of the memory, which `initMemory` reserves. There is room for at
least one of each from 8 KB above the smallest accepted size on.
-/

namespace OperatorSystem.Fs

open OperatorSystem.Mm (installed Memory)

namespace Cache

/-! ### The loop -/

/-- The state after `n` rounds that start with `h` and `b`. -/
structure Rounds (c c' : Cache) (h b n : Nat) : Prop where
  count : c'.nrBuffers = c.nrBuffers + n
  heads : ∀ i < n, c'.heads (h + sizeofHead * i) =
    freshHead (c.heads (h + sizeofHead * i)) (h + sizeofHead * i) (b - blockSize * (i + 1))
  below : ∀ a < h, c'.heads a = c.heads a

theorem Rounds.cons {c c' : Cache} {h b n : Nat}
    (rounds : Rounds { c.setHead h (freshHead (c.heads h) h (b - blockSize)) with
      nrBuffers := c.nrBuffers + 1 } c' (h + sizeofHead) (b - blockSize) n) :
    Rounds c c' h b (n + 1) := by
  -- the first round writes its own head only, the later ones the heads behind it
  have other : ∀ a ≠ h, (c.setHead h (freshHead (c.heads h) h (b - blockSize))).heads a = c.heads a :=
    fun a apart => Function.update_of_ne apart _ _
  constructor
  · rw [rounds.count]
    change c.nrBuffers + 1 + n = _
    omega
  · intro i small
    cases i with
    | zero =>
      rw [Nat.mul_zero, Nat.add_zero, rounds.below h (by simp only [sizeofHead]; omega)]
      exact Function.update_self ..
    | succ i =>
      have place : h + sizeofHead * (i + 1) = h + sizeofHead + sizeofHead * i := by
        rw [Nat.mul_succ]
        omega
      have block : b - blockSize * (i + 1 + 1) = b - blockSize - blockSize * (i + 1) := by
        rw [Nat.mul_succ blockSize (i + 1)]
        omega
      have apart : h + sizeofHead + sizeofHead * i ≠ h := by
        simp only [sizeofHead]
        omega
      have head := rounds.heads i (by omega)
      simp only [other _ apart] at head
      rw [place, block, head]
  · intro a low
    rw [rounds.below a (by omega)]
    exact other a (by omega)

/-- The loop makes as many rounds as heads and blocks fit between `h` and `b`. -/
theorem initLoop_spec {fuel h b n : Nat} (c : Cache) (stores : List (Addr × Nat))
    (enough : n < fuel) (fits : h + (sizeofHead + blockSize) * n ≤ b)
    (full : b < h + (sizeofHead + blockSize) * (n + 1)) :
    ∃ c' stores', initLoop fuel b h c stores = some (h + sizeofHead * n, c', stores') ∧
      Rounds c c' h b n ∧
      ∀ a len : Nat, (a, len) ∈ stores' → (a, len) ∈ stores ∨ h ≤ a ∧ a + len ≤ h + sizeofHead * n := by
  simp only [sizeofHead, blockSize] at fits full
  -- the induction is on the rounds: heads grow upwards, blocks downwards, until they would meet
  induction n generalizing fuel h b c stores with
  | zero =>
    obtain ⟨fuel, rfl⟩ : ∃ k, fuel = k + 1 := ⟨fuel - 1, by omega⟩
    have stop : ¬ h + sizeofHead ≤ b - blockSize := by
      simp only [sizeofHead, blockSize]
      omega
    rw [initLoop, if_neg stop]
    exact ⟨c, stores, rfl, ⟨rfl, by omega, fun _ _ => rfl⟩, fun a len old => Or.inl old⟩
  | succ n ih =>
    obtain ⟨fuel, rfl⟩ : ∃ k, fuel = k + 1 := ⟨fuel - 1, by omega⟩
    have again : h + sizeofHead ≤ b - blockSize := by
      simp only [sizeofHead, blockSize]
      omega
    obtain ⟨c', stores', done, rounds, written⟩ :=
      ih { c.setHead h (freshHead (c.heads h) h (b - blockSize)) with nrBuffers := c.nrBuffers + 1 }
        (roundStores h ++ stores) (show n < fuel by omega)
        (show h + sizeofHead + _ ≤ b - blockSize by simp only [sizeofHead, blockSize]; omega)
        (by simp only [sizeofHead, blockSize]; omega)
    have ends : h + sizeofHead + sizeofHead * n = h + sizeofHead * (n + 1) := by
      rw [Nat.mul_succ]
      omega
    refine ⟨c', stores', ?_, rounds.cons, ?_⟩
    · rw [initLoop, if_pos again, done, ends]
    · intro a len stored
      rcases written a len stored with old | ⟨low, high⟩
      · rcases List.mem_append.mp old with now | before
        · right
          simp only [roundStores, List.mem_cons, Prod.mk.injEq, List.not_mem_nil, or_false] at now
          simp only [sizeofHead]
          omega
        · exact Or.inl before
      · right
        simp only [sizeofHead] at low high ⊢
        omega

/-! ### The layout -/

/-- The static initial values; the heads hold whatever is in memory. -/
def boot (heads : Addr → BufferHead) : Cache := ⟨heads, 0, fun _ => none, 0⟩

/-- The heads and the blocks fill the area, the heads are a ring, and nothing
is stored to a page that `getFreePage` could return. -/
structure Layout (memSize : BitVec 32) (c : Cache) (stores : List (Addr × Nat)) : Prop where
  nonempty : 1 ≤ c.nrBuffers
  apart : headAddr c.nrBuffers + blockSize * c.nrBuffers ≤ installed memSize / 4
  largest : installed memSize / 4 < headAddr (c.nrBuffers + 1) + blockSize * (c.nrBuffers + 1)
  data : ∀ i < c.nrBuffers,
    (c.heads (headAddr i)).data = installed memSize / 4 - blockSize * (i + 1)
  first : c.freeList = headAddr 0
  next : ∀ i < c.nrBuffers,
    (c.heads (headAddr i)).nextFree = some (headAddr ((i + 1) % c.nrBuffers))
  prev : ∀ i < c.nrBuffers,
    (c.heads (headAddr ((i + 1) % c.nrBuffers))).prevFree = some (headAddr i)
  reserved : ∀ a len : Nat, (a, len) ∈ stores → ∀ x, a ≤ x → x < a + len →
    ∀ m m' : Memory, m.initMemory memSize = some m' → m'.memMap (x / 4096) = 100
  never : ∀ s, Transition.Reachable (Mm.Pages.system memSize) s →
    ∀ p ∈ s.returned, installed memSize / 4 ≤ p.toNat

/-- `initBuffer` by the number of buffers that fit. -/
theorem initBuffer_spec (heads : Addr → BufferHead) {memSize : BitVec 32} {n : Nat}
    (enough : 0x400000 ≤ installed memSize)
    (fits : startBufferAddr + (sizeofHead + blockSize) * n ≤ installed memSize / 4)
    (full : installed memSize / 4 < startBufferAddr + (sizeofHead + blockSize) * (n + 1)) :
    ∃ c stores, (boot heads).initBuffer memSize =
        some (c.closeRing (headAddr n - sizeofHead), (headAddr n - sizeofHead + 32, 4) ::
          (startBufferAddr + 28, 4) :: stores) ∧
      Rounds (boot heads) c startBufferAddr (installed memSize / 4) n ∧
      ∀ a len : Nat, (a, len) ∈ stores → startBufferAddr ≤ a ∧ a + len ≤ headAddr n := by
  have size := Mm.toNat_roundSize enough
  have bound := Mm.installed_le memSize
  have notSmall : ¬ BitVec.slt (Mm.roundSize memSize) 0x400000 := by
    rw [BitVec.slt_iff_toInt_lt, Mm.toInt_of_small (by omega), size]
    change ¬ _ < (0x400000 : Int)
    omega
  -- the area is the first quarter of the memory behind the kernel
  have quarter : ((Mm.roundSize memSize).sdiv 4).toNat = installed memSize / 4 := by
    rw [Mm.sdiv_four (by rw [size]; omega), size]
  have fuel : n < installed memSize / 4 := by
    simp only [sizeofHead, blockSize] at fits
    have : startBufferAddr = 1048576 := rfl
    omega
  obtain ⟨c, stores, done, rounds, written⟩ := initLoop_spec (boot heads) [] fuel fits full
  refine ⟨c, stores, ?_, rounds, fun a len stored => ?_⟩
  · change (if BitVec.slt (Mm.roundSize memSize) 0x400000 then none else
      (initLoop ((Mm.roundSize memSize).sdiv 4).toNat ((Mm.roundSize memSize).sdiv 4).toNat
        startBufferAddr (boot heads) []).bind _) = _
    rw [if_neg notSmall, quarter, done]
    rfl
  · rcases written a len stored with none | inside
    · cases none
    · exact inside

/-- Only a size that is large enough gets past the test of `initBuffer`. -/
theorem enough_of_initBuffer {c c' : Cache} {memSize : BitVec 32} {stores : List (Addr × Nat)}
    (done : c.initBuffer memSize = some (c', stores)) : 0x400000 ≤ installed memSize := by
  change (if BitVec.slt (Mm.roundSize memSize) 0x400000 then none else _) = _ at done
  split at done
  · cases done
  next notSmall =>
    rw [BitVec.slt_iff_toInt_lt] at notSmall
    change ¬ _ < (0x400000 : Int) at notSmall
    have bound := Mm.installed_le memSize
    rcases Mm.roundSize_cases memSize with same | ⟨negative, _⟩
    · rw [Mm.toInt_of_small (by omega), same] at notSmall
      omega
    · omega

theorem headAddr_inj {i j : Nat} : headAddr i = headAddr j ↔ i = j := by
  simp only [headAddr, sizeofHead]
  omega

theorem headAddr_pred {n : Nat} : headAddr (n + 1) - sizeofHead = headAddr n := by
  rw [headAddr, headAddr, Nat.mul_succ, ← Nat.add_assoc, Nat.add_sub_cancel]

theorem closeRing_head (c : Cache) (last a : Addr) : (c.closeRing last).heads a =
    { c.heads a with
      prevFree := if a = startBufferAddr then some last else (c.heads a).prevFree
      nextFree := if a = last then some startBufferAddr else (c.heads a).nextFree } := by
  by_cases first : a = startBufferAddr <;> by_cases final : a = last
  · subst first final
    simp [closeRing, setHead]
  · subst first
    simp [closeRing, setHead, final]
  · subst final
    simp [closeRing, setHead, first]
  · simp [closeRing, setHead, first, final]

/-- The ring of `n + 1` heads. -/
theorem ring_of_rounds {heads : Addr → BufferHead} {c : Cache} {q n : Nat}
    (rounds : Rounds (boot heads) c startBufferAddr q (n + 1)) {i : Nat} (small : i ≤ n) :
    ((c.closeRing (headAddr n)).heads (headAddr i)).data = q - blockSize * (i + 1) ∧
      ((c.closeRing (headAddr n)).heads (headAddr i)).nextFree =
        some (if i = n then headAddr 0 else headAddr (i + 1)) ∧
      ((c.closeRing (headAddr n)).heads (headAddr i)).prevFree =
        some (if i = 0 then headAddr n else headAddr (i - 1)) := by
  have fresh := rounds.heads i (by omega)
  change c.heads (headAddr i) = freshHead _ (headAddr i) _ at fresh
  have first : headAddr i = startBufferAddr ↔ i = 0 := headAddr_inj (j := 0)
  simp only [closeRing_head, fresh, freshHead, first, headAddr_inj, true_and]
  constructor
  · -- `closeRing` has changed the two links at the ends
    by_cases last : i = n
    · rw [if_pos last, if_pos last]
      rfl
    · rw [if_neg last, if_neg last]
      rfl
  · by_cases start : i = 0
    · rw [if_pos start, if_pos start]
    · rw [if_neg start, if_neg start]
      obtain ⟨i, rfl⟩ : ∃ j, i = j + 1 := ⟨i - 1, by omega⟩
      rw [headAddr_pred, Nat.add_sub_cancel]

theorem headAddr_add_blocks (n : Nat) :
    headAddr n + blockSize * n = startBufferAddr + (sizeofHead + blockSize) * n := by
  rw [headAddr, Nat.add_mul, Nat.add_assoc]

/-- With room for one head and one block there is a last pair that fits. -/
theorem exists_rounds {a q : Nat} (room : a + 1060 ≤ q) :
    ∃ n, a + 1060 * (n + 1) ≤ q ∧ q < a + 1060 * (n + 1 + 1) := by
  have positive : 0 < (q - a) / 1060 := Nat.div_pos (by omega) (by omega)
  obtain ⟨n, pairs⟩ := Nat.exists_eq_add_one_of_ne_zero (Nat.ne_of_gt positive)
  refine ⟨n, ?_, ?_⟩
  · rw [← pairs]
    have := Nat.mul_div_le (q - a) 1060
    omega
  · rw [← pairs]
    have := Nat.lt_mul_div_succ (q - a) (show 0 < 1060 by omega)
    omega

/-- On the two smallest sizes not even one pair fits. -/
theorem initBuffer_small (heads : Addr → BufferHead) {memSize : BitVec 32}
    (enough : 0x400000 ≤ installed memSize) (small : ¬ 0x402000 ≤ installed memSize) :
    ∃ c stores, (boot heads).initBuffer memSize = some (c, stores) ∧ c.nrBuffers = 0 := by
  have pages : installed memSize % 4096 = 0 := by simp [installed]
  have start : startBufferAddr = 1048576 := rfl
  have fits : startBufferAddr + 1060 * 0 ≤ installed memSize / 4 := by omega
  have full : installed memSize / 4 < startBufferAddr + 1060 * (0 + 1) := by omega
  obtain ⟨c, stores, done, rounds, _⟩ := initBuffer_spec heads enough fits full
  exact ⟨_, _, done, rounds.count⟩

/-- The exact condition: two more pages than the smallest size accepted. -/
theorem layout_iff (heads : Addr → BufferHead) {memSize : BitVec 32}
    (enough : 0x400000 ≤ installed memSize) :
    ∃ c stores, (boot heads).initBuffer memSize = some (c, stores) ∧
      (Layout memSize c stores ↔ 0x402000 ≤ installed memSize) := by
  have pages : installed memSize % 4096 = 0 := by simp [installed]
  have start : startBufferAddr = 1048576 := rfl
  -- with no room for one head and one block the ring is closed over nothing
  by_cases large : 0x402000 ≤ installed memSize
  · have room : startBufferAddr + 1060 ≤ installed memSize / 4 := by omega
    obtain ⟨n, fits, full⟩ := exists_rounds (a := startBufferAddr) room
    obtain ⟨c, stores, done, rounds, written⟩ := initBuffer_spec heads enough fits full
    rw [headAddr_pred] at done
    refine ⟨_, _, done, iff_of_true ?_ large⟩
    have count : (c.closeRing (headAddr n)).nrBuffers = n + 1 := by
      change c.nrBuffers = _
      rw [rounds.count]
      exact Nat.zero_add _
    constructor
    · omega
    · rw [count, headAddr_add_blocks]
      exact fits
    · rw [count, headAddr_add_blocks]
      exact full
    · intro i small
      exact (ring_of_rounds rounds (by omega)).1
    · rfl
    · intro i small
      rw [count] at small ⊢
      rw [(ring_of_rounds rounds (by omega)).2.1]
      by_cases last : i = n
      · rw [if_pos last, last, Nat.mod_self]
      · rw [if_neg last, Nat.mod_eq_of_lt (by omega)]
    · intro i small
      rw [count] at small ⊢
      by_cases last : i = n
      · rw [last, Nat.mod_self, (ring_of_rounds rounds (by omega)).2.2, if_pos rfl]
      · rw [Nat.mod_eq_of_lt (by omega), (ring_of_rounds rounds (by omega)).2.2, if_neg (by omega),
          Nat.add_sub_cancel]
    · intro a len stored x low high m m' initialised
      have inside : x < installed memSize / 4 := by
        have ends : headAddr n + 36 ≤ installed memSize / 4 := by
          simp only [headAddr, sizeofHead]
          omega
        simp only [List.mem_cons, Prod.mk.injEq] at stored
        rcases stored with ⟨rfl, rfl⟩ | ⟨rfl, rfl⟩ | old
        · omega
        · omega
        · have := (written a len old).2
          simp only [headAddr, sizeofHead] at this
          omega
      obtain ⟨m'', done', _, counts⟩ := Mm.initMemory_spec m enough
      obtain rfl := Option.some.inj (done'.symm.trans initialised)
      have bound := Mm.installed_le memSize
      rw [counts, if_pos (by simp only [Mm.pagesSize]; omega), if_pos (by omega)]
    · exact fun s reachable p returned => ((Mm.Pages.above_of_reachable enough reachable).2 p returned).1
  · obtain ⟨c, stores, done, empty⟩ := initBuffer_small heads enough large
    refine ⟨c, stores, done, iff_of_false ?_ large⟩
    intro layout
    have := layout.nonempty
    omega

theorem layout_lost : ∃ c stores,
    (boot fun _ => ⟨0, 0, 0, false, false, 0, false, none, none, none, none⟩).initBuffer 0x400000 =
      some (c, stores) ∧ ¬ Layout 0x400000 c stores := by
  obtain ⟨c, stores, done, empty⟩ := initBuffer_small
    (fun _ => ⟨0, 0, 0, false, false, 0, false, none, none, none, none⟩)
    (show 0x400000 ≤ installed 0x400000 by decide) (by decide)
  refine ⟨c, stores, done, ?_⟩
  intro layout
  have := layout.nonempty
  omega

theorem layout_iff_large : ∃ c stores,
    (boot fun _ => ⟨0, 0, 0, false, false, 0, false, none, none, none, none⟩).initBuffer 0x2000000 =
      some (c, stores) ∧ (Layout 0x2000000 c stores ↔ 0x402000 ≤ installed 0x2000000) :=
  layout_iff _ (show 0x400000 ≤ installed 0x2000000 by decide)

end Cache

end OperatorSystem.Fs
