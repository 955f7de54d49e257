import Mathlib.Data.List.Nodup
import OperatorSystem.Library.Transition
import OperatorSystem.Mm.PageFunctions

/-!
# The pages of main memory

`initMemory` reserves the first quarter of the memory and frees the rest, for
any size of the machine. The module follows the pages that `getFreePage` hands
out and `freePage` takes back, without any use of them in page tables.
-/

namespace OperatorSystem.Mm

/-! ### Memory sizes -/

/-- `mem_size` with its bound of 60 MB, in whole pages. -/
def installed (memSize : BitVec 32) : Nat := (min memSize.toInt 0x3C00000).toNat / 4096 * 4096

/-- The size as `initMemory` and `initBuffer` compute it. -/
def roundSize (memSize : BitVec 32) : BitVec 32 :=
  (if BitVec.slt 0x3C00000 memSize then 0x3C00000 else memSize) &&& 0xFFFFF000

theorem toNat_and_pageMask (e : BitVec 32) :
    (e &&& (0xFFFFF000 : BitVec 32)).toNat = e.toNat / 4096 * 4096 := by
  have mask : e &&& (0xFFFFF000 : BitVec 32) = e >>> 12 <<< 12 := by
    rw [BitVec.shiftLeft_ushiftRight]
    rfl
  have small : e.toNat < 4294967296 := e.isLt
  rw [mask, BitVec.toNat_shiftLeft, BitVec.toNat_ushiftRight, Nat.shiftRight_eq_div_pow,
    Nat.shiftLeft_eq]
  exact Nat.mod_eq_of_lt (by omega)

theorem installed_le (memSize : BitVec 32) : installed memSize ≤ 0x3C00000 := by
  unfold installed
  omega

/-- The size computed is the installed one, or a negative one that is refused. -/
theorem roundSize_cases (memSize : BitVec 32) :
    (roundSize memSize).toNat = installed memSize ∨
      (roundSize memSize).toInt < 0 ∧ installed memSize = 0 := by
  rw [roundSize, installed]
  split
  -- the comparison is signed, so a size from 2 GB on counts as negative
  next large =>
    left
    have bound : (0x3C00000 : Int) < memSize.toInt := BitVec.slt_iff_toInt_lt.mp large
    rw [min_eq_right (le_of_lt bound)]
    rfl
  next small =>
    rw [BitVec.slt_iff_toInt_lt] at small
    change ¬ (0x3C00000 : Int) < memSize.toInt at small
    rw [min_eq_left (not_lt.mp small)]
    by_cases negative : memSize.toInt < 0
    · right
      refine ⟨?_, by omega⟩
      have sign : memSize.msb = true := by
        by_contra positive
        rw [BitVec.toInt_eq_toNat_of_msb (by simpa using positive)] at negative
        omega
      apply BitVec.toInt_neg_of_msb_true
      rw [BitVec.msb_and, sign]
      rfl
    · left
      have sign : memSize.msb = false := by
        by_contra set
        have := BitVec.toInt_neg_of_msb_true (by simpa using set)
        omega
      rw [toNat_and_pageMask, BitVec.toInt_eq_toNat_of_msb sign, Int.toNat_natCast]

theorem toNat_roundSize {memSize : BitVec 32} (enough : 0x400000 ≤ installed memSize) :
    (roundSize memSize).toNat = installed memSize := by
  rcases roundSize_cases memSize with same | ⟨_, none⟩
  · exact same
  · omega

/-- A value that is not negative as a signed one. -/
theorem toInt_of_small {e : BitVec 32} (small : e.toNat < 0x80000000) : e.toInt = e.toNat :=
  BitVec.toInt_eq_toNat_of_lt (by omega)

theorem sdiv_four {e : BitVec 32} (small : e.toNat < 0x80000000) : (e.sdiv 4).toNat = e.toNat / 4 := by
  have sign : e.msb = false := by
    rw [BitVec.msb_eq_false_iff_two_mul_lt]
    omega
  have four : (4 : BitVec 32).msb = false := by decide
  rw [BitVec.sdiv, sign, four]
  rfl

/-- A byte offset counted in pages, with the signed shift of the source. -/
theorem page_le_iff {e : BitVec 32} (small : e.toNat < 0x80000000) (positive : 0 < e.toNat) (f : Nat) :
    (f : Int) ≤ ((e - 1).sshiftRight 12).toInt ↔ f * 4096 < e.toNat := by
  have one : (e - 1).toNat = e.toNat - 1 := by
    rw [BitVec.toNat_sub_of_le]
    · rfl
    · exact positive
  rw [BitVec.toInt_sshiftRight, toInt_of_small (by omega), one, Int.shiftRight_eq_div_pow]
  omega

/-- `initMemory` reserves the first quarter, frees the rest, and leaves the
entries past the end of the memory as they are. -/
theorem initMemory_spec (m : Memory) {memSize : BitVec 32} (enough : 0x400000 ≤ installed memSize) :
    ∃ m', m.initMemory memSize = some m' ∧ m'.page = m.page ∧ ∀ f, m'.memMap f =
      if f < pagesSize then
        if f * 4096 < installed memSize / 4 then 100
        else if f * 4096 < installed memSize then 0
        else m.memMap f
      else m.memMap f := by
  have size := toNat_roundSize enough
  have bound := installed_le memSize
  have notSmall : ¬ BitVec.slt (roundSize memSize) 0x400000 := by
    rw [BitVec.slt_iff_toInt_lt, toInt_of_small (by omega), size]
    change ¬ _ < (0x400000 : Int)
    omega
  -- the size is positive as a signed number, so its division is the plain one
  have quarter := sdiv_four (show (roundSize memSize).toNat < 0x80000000 by omega)
  refine ⟨_, if_neg notSmall, rfl, ?_⟩
  intro f
  change (if f < pagesSize then
    if (f : Int) ≤ (((roundSize memSize).sdiv 4 - 1).sshiftRight 12).toInt then (100 : BitVec 8)
    else if (f : Int) ≤ ((roundSize memSize - 1).sshiftRight 12).toInt then 0
    else m.memMap f else m.memMap f) = _
  simp only [page_le_iff (e := (roundSize memSize).sdiv 4) (by omega) (by omega),
    page_le_iff (e := roundSize memSize) (by omega) (by omega), quarter, size]

/-- `getFreePage` takes the first entry whose count is 0. -/
theorem Memory.getFreePage_first (m : Memory) :
    (m.getFreePage = (m, 0) ∧ ∀ f < pagesSize, m.memMap f ≠ 0) ∨
      ∃ f < pagesSize, m.memMap f = 0 ∧ (∀ g < f, m.memMap g ≠ 0) ∧
        m.getFreePage = (m.claimPage f, pageAddr f) := by
  unfold Memory.getFreePage
  split
  next full =>
    left
    refine ⟨rfl, ?_⟩
    intro f small
    simpa using List.find?_eq_none.mp full f (List.mem_range.mpr small)
  next f found =>
    right
    obtain ⟨zero, small, first⟩ := List.find?_range_eq_some.mp found
    exact ⟨f, List.mem_range.mp small, by simpa using zero, by simpa using first, rfl⟩

/-- `freePage` changes one count at most. -/
theorem Memory.freePage_other {m m' : Memory} {p : BitVec 32} {g : Nat} (done : m.freePage p = some m')
    (other : g ≠ frame p) : m'.memMap g = m.memMap g := by
  rw [Memory.freePage] at done
  split at done
  next =>
    obtain rfl := Option.some.inj done
    rfl
  next =>
    split at done
    next => cases done
    next =>
      dsimp only at done
      split at done <;> obtain rfl := Option.some.inj done <;>
        simp only [Memory.setCount, Function.update_of_ne other]

/-! ### Pages handed out and taken back -/

/-- The static initial value of `MEM_MAP`. -/
def staticMemMap (f : Nat) : BitVec 8 := if f = 0 then -1 else 0

/-- The memory, every address `getFreePage` has returned, and those not freed since. -/
structure Pages where
  mem : Memory
  returned : List (BitVec 32)
  held : List (BitVec 32)

namespace Pages

inductive Action
  | get
  | free (p : BitVec 32)

inductive Step : Pages → Action → Pages → Prop
  | get {s : Pages} {mem : Memory} {p : BitVec 32} (done : s.mem.getFreePage = (mem, p)) :
      Step s .get
        (if p = 0 then { s with mem } else ⟨mem, p :: s.returned, p :: s.held⟩)
  | free {s : Pages} {mem : Memory} {p : BitVec 32} (returned : p ∈ s.returned)
      (done : s.mem.freePage p = some mem) :
      Step s (.free p) { s with mem, held := s.held.filter (· ≠ p) }

/-- The runs after `initMemory memSize`. -/
def system (memSize : BitVec 32) : Transition.System Pages Action where
  init s := (∃ m : Memory, m.memMap = staticMemMap ∧ m.initMemory memSize = some s.mem) ∧
    s.returned = [] ∧ s.held = []
  step := Step

/-- The pages between the cache and the end of the memory that have a page table entry. -/
def Usable (memSize : BitVec 32) (f : Nat) : Prop :=
  installed memSize / 4 ≤ f * 4096 ∧ f * 4096 < min (installed memSize) Mm.memSize.toNat

/-- Every page returned is an aligned page of main memory, and none is held twice. -/
structure Exclusive (memSize : BitVec 32) (s : Pages) : Prop where
  aligned : ∀ p ∈ s.returned, p.toNat % 4096 = 0
  usable : ∀ p ∈ s.returned, installed memSize / 4 ≤ p.toNat ∧
    p.toNat < min (installed memSize) Mm.memSize.toNat
  distinct : s.held.Nodup

/-- A page of main memory is free, or no page at all is. -/
def Available (memSize : BitVec 32) (s : Pages) (a : Action) : Prop :=
  a = .get → (∃ f, Usable memSize f ∧ s.mem.memMap f = 0) ∨ ∀ f < pagesSize, s.mem.memMap f ≠ 0

/-- The counts behind `Exclusive`. -/
structure Counted (memSize : BitVec 32) (s : Pages) : Prop where
  exclusive : Exclusive memSize s
  kept : ∀ p ∈ s.held, p ∈ s.returned
  reserved : ∀ f, f * 4096 < installed memSize / 4 → s.mem.memMap f = 100
  counts : ∀ f, Usable memSize f → s.mem.memMap f = if pageAddr f ∈ s.held then 1 else 0
  absent : ∀ f < pagesSize, installed memSize ≤ f * 4096 → s.mem.memMap f = 0

variable {memSize : BitVec 32} {s : Pages}

theorem Usable.small {f : Nat} (usable : Usable memSize f) : f < pagesSize := by
  have := usable.2
  change f * 4096 < min (installed memSize) 33554432 at this
  change f < 8192
  omega

theorem Usable.pos {f : Nat} (usable : Usable memSize f) (enough : 0x400000 ≤ installed memSize) :
    0 < f := by
  have := usable.1
  omega

theorem usable_pageAddr {f : Nat} (usable : Usable memSize f) : (pageAddr f).toNat = f * 4096 := by
  have := usable.small
  simp only [pagesSize] at this
  exact toNat_pageAddr (by omega)

theorem counted_init (enough : 0x400000 ≤ installed memSize) (start : (system memSize).init s) :
    Counted memSize s := by
  obtain ⟨⟨m, static, done⟩, returned, held⟩ := start
  obtain ⟨m', done', _, counts⟩ := initMemory_spec m enough
  obtain rfl : m' = s.mem := Option.some.inj (done'.symm.trans done)
  have bound := installed_le memSize
  constructor
  · constructor
    · simp [returned]
    · simp [returned]
    · simp [held]
  · simp [held]
  · intro f low
    have small : f < pagesSize := by
      simp only [pagesSize]
      omega
    rw [counts, if_pos small, if_pos low]
  · intro f usable
    have := usable.1
    have := usable.2
    rw [counts, if_pos usable.small, if_neg (by omega), if_pos (by omega)]
    simp [held]
  · intro f small high
    rw [counts, if_pos small, if_neg (by omega), if_neg (by omega), static, staticMemMap,
      if_neg (by omega)]

theorem usable_of_found (counted : Counted memSize s) {f : Nat} (small : f < pagesSize)
    (zero : s.mem.memMap f = 0) (first : ∀ g < f, s.mem.memMap g ≠ 0)
    (available : Available memSize s .get) : Usable memSize f := by
  have above : installed memSize / 4 ≤ f * 4096 := by
    by_contra low
    rw [counted.reserved f (by omega)] at zero
    exact absurd zero (by decide)
  rcases available rfl with ⟨g, usable, free⟩ | full
  · have order : f ≤ g := by
      by_contra later
      exact first g (by omega) free
    exact ⟨above, lt_of_le_of_lt (Nat.mul_le_mul_right 4096 order) usable.2⟩
  · exact absurd zero (full f small)

theorem Counted.get (counted : Counted memSize s) {f : Nat} (usable : Usable memSize f) (zero : s.mem.memMap f = 0) :
    Counted memSize ⟨s.mem.claimPage f, pageAddr f :: s.returned, pageAddr f :: s.held⟩ := by
  have addr := usable_pageAddr usable
  -- a frame with count 0 is held by nobody
  have notHeld : pageAddr f ∉ s.held := by
    intro held
    have := counted.counts f usable
    rw [if_pos held, zero] at this
    exact absurd this (by decide)
  constructor
  · constructor
    · intro p returned
      rcases List.mem_cons.mp returned with rfl | old
      · omega
      · exact counted.exclusive.aligned p old
    · intro p returned
      rcases List.mem_cons.mp returned with rfl | old
      · rw [addr]
        exact usable
      · exact counted.exclusive.usable p old
    · exact List.nodup_cons.mpr ⟨notHeld, counted.exclusive.distinct⟩
  · intro p held
    rcases List.mem_cons.mp held with rfl | old
    · exact List.mem_cons_self
    · exact List.mem_cons_of_mem _ (counted.kept p old)
  · intro g low
    have other : g ≠ f := by
      rintro rfl
      have := usable.1
      omega
    simp only [Memory.claimPage, Function.update_of_ne other]
    exact counted.reserved g low
  · intro g usable'
    by_cases here : g = f
    · subst here
      simp [Memory.claimPage]
    · have other : pageAddr g ≠ pageAddr f := by
        intro same
        have := congrArg BitVec.toNat same
        rw [usable_pageAddr usable', addr] at this
        omega
      simp only [Memory.claimPage, Function.update_of_ne here, List.mem_cons, other, false_or]
      exact counted.counts g usable'
  · intro g small high
    have other : g ≠ f := by
      rintro rfl
      have := usable.2
      omega
    simp only [Memory.claimPage, Function.update_of_ne other]
    exact counted.absent g small high

/-- A page that has been returned belongs to main memory. -/
theorem Counted.frame_of_returned (counted : Counted memSize s) {p : BitVec 32}
    (returned : p ∈ s.returned) : Usable memSize (frame p) ∧ pageAddr (frame p) = p := by
  have aligned := counted.exclusive.aligned p returned
  have inside := counted.exclusive.usable p returned
  have whole : frame p * 4096 = p.toNat := by
    rw [frame_eq]
    omega
  have usable : Usable memSize (frame p) := by
    rw [Usable, whole]
    exact inside
  refine ⟨usable, BitVec.eq_of_toNat_eq ?_⟩
  rw [usable_pageAddr usable, whole]

theorem Counted.freePage (counted : Counted memSize s) (enough : 0x400000 ≤ installed memSize)
    {p : BitVec 32} (returned : p ∈ s.returned) :
    s.mem.freePage p = some (s.mem.setCount (frame p) 0) := by
  obtain ⟨usable, addr⟩ := counted.frame_of_returned returned
  have inside := counted.exclusive.usable p returned
  have notKernel : ¬ p < kernelMem := by
    rw [BitVec.lt_def]
    change ¬ _ < 0x100000
    omega
  have notAbove : ¬ p ≥ Mm.memSize := by
    rw [ge_iff_le, BitVec.le_def]
    omega
  rw [Memory.freePage, if_neg notKernel, if_neg notAbove, counted.counts _ usable]
  split
  · rfl
  · simp [Memory.setCount]

theorem Counted.free (counted : Counted memSize s) {p : BitVec 32} (returned : p ∈ s.returned) :
    Counted memSize { s with
      mem := s.mem.setCount (frame p) 0, held := s.held.filter (· ≠ p) } := by
  obtain ⟨usable, addr⟩ := counted.frame_of_returned returned
  -- the freed page is the only one whose count and holder change
  constructor
  · exact ⟨counted.exclusive.aligned, counted.exclusive.usable, counted.exclusive.distinct.filter _⟩
  · intro q held
    exact counted.kept q (List.mem_of_mem_filter held)
  · intro g low
    have other : g ≠ frame p := by
      rintro rfl
      have := usable.1
      omega
    simp only [Memory.setCount, Function.update_of_ne other]
    exact counted.reserved g low
  · intro g usable'
    by_cases here : g = frame p
    · simp [Memory.setCount, here, addr]
    · have other : pageAddr g ≠ p := by
        rintro rfl
        have small := usable'.small
        simp only [pagesSize] at small
        exact here (frame_pageAddr (by omega)).symm
      simp only [Memory.setCount, Function.update_of_ne here, counted.counts g usable']
      simp [other]
  · intro g small high
    have other : g ≠ frame p := by
      rintro rfl
      have := usable.2
      omega
    simp only [Memory.setCount, Function.update_of_ne other]
    exact counted.absent g small high

theorem Counted.step (counted : Counted memSize s) (enough : 0x400000 ≤ installed memSize)
    {a : Action} {s' : Pages} (taken : Step s a s') (available : Available memSize s a) :
    Counted memSize s' := by
  cases taken with
  | @get mem p done =>
    rcases s.mem.getFreePage_first with ⟨failed, _⟩ | ⟨f, small, zero, first, found⟩
    · obtain ⟨rfl, rfl⟩ := Prod.mk.inj (failed.symm.trans done)
      rw [if_pos rfl]
      exact counted
    · have usable := usable_of_found counted small zero first available
      obtain ⟨rfl, rfl⟩ := Prod.mk.inj (found.symm.trans done)
      have small' : f < 2 ^ 20 := by
        simp only [pagesSize] at small
        omega
      rw [if_neg (pageAddr_ne_zero small' (usable.pos enough))]
      exact counted.get usable zero
  | free returned done =>
    obtain rfl := Option.some.inj ((counted.freePage enough returned).symm.trans done)
    exact counted.free returned

/-- Once main memory is used up, a page past the end of the memory is returned. -/
theorem Counted.lost (counted : Counted memSize s) (enough : 0x400000 ≤ installed memSize)
    {a : Action} {s' : Pages} (taken : Step s a s') (missed : ¬ Available memSize s a) :
    ¬ Exclusive memSize s' := by
  intro exclusive
  apply missed
  rintro rfl
  cases taken with
  | @get mem p done =>
    rcases s.mem.getFreePage_first with ⟨_, full⟩ | ⟨f, small, zero, _, found⟩
    · exact Or.inr full
    · left
      obtain ⟨rfl, rfl⟩ := Prod.mk.inj (found.symm.trans done)
      have small' : f < 2 ^ 20 := by
        simp only [pagesSize] at small
        omega
      have positive : 0 < f := by
        apply Nat.pos_of_ne_zero
        rintro rfl
        rw [counted.reserved 0 (by omega)] at zero
        exact absurd zero (by decide)
      rw [if_neg (pageAddr_ne_zero small' positive)] at exclusive
      -- the page handed out would have to be a page of main memory
      have inside := exclusive.usable (pageAddr f) List.mem_cons_self
      rw [toNat_pageAddr small'] at inside
      exact ⟨f, inside, zero⟩

/-- In every run after `initMemory` all pages returned are pages of main memory
that nobody holds if and only if every call of `getFreePage` finds one of these
free, or none at all. -/
theorem exclusive_iff (enough : 0x400000 ≤ installed memSize) {hist : List (Pages × Action)}
    {s : Pages} (run : Transition.Run (system memSize) hist s) :
    ((∀ x ∈ hist, Exclusive memSize x.1) ∧ Exclusive memSize s) ↔
      ∀ x ∈ hist, Available memSize x.1 x.2 := by
  apply Transition.Run.guard_iff (I := Counted memSize) _ _ _ _ run
  · exact fun s start => counted_init enough start
  · exact fun s a s' counted taken available => counted.step enough taken available
  · exact fun s counted => counted.exclusive
  · exact fun s a s' counted taken missed => counted.lost enough taken missed

/-- Memory up to the last entry of `MEM_MAP` leaves no free page but those of main memory. -/
theorem Counted.available (counted : Counted memSize s) (large : Mm.memSize.toNat ≤ installed memSize)
    (a : Action) : Available memSize s a := by
  rintro -
  by_cases full : ∀ f < pagesSize, s.mem.memMap f ≠ 0
  · exact Or.inr full
  · obtain ⟨f, small, zero⟩ : ∃ f < pagesSize, s.mem.memMap f = 0 := by simpa using full
    refine Or.inl ⟨f, ⟨?_, ?_⟩, zero⟩
    · by_contra low
      rw [counted.reserved f (by omega)] at zero
      exact absurd zero (by decide)
    · rw [min_eq_right large]
      change f * 4096 < 8192 * 4096
      exact Nat.mul_lt_mul_of_pos_right small (by decide)

theorem exclusive_of_large (large : Mm.memSize.toNat ≤ installed memSize)
    (reachable : Transition.Reachable (system memSize) s) : Exclusive memSize s := by
  have enough : 0x400000 ≤ installed memSize := Nat.le_trans (by decide) large
  have counted : Counted memSize s := by
    apply Transition.Reachable.invariant (I := Counted memSize) _ _ reachable
    · exact fun s start => counted_init enough start
    · exact fun s a s' counted taken => counted.step enough taken (counted.available large a)
  exact counted.exclusive

/-- Whatever is returned and freed, the first quarter stays reserved. -/
theorem above_of_reachable (enough : 0x400000 ≤ installed memSize)
    (reachable : Transition.Reachable (system memSize) s) :
    (∀ f, f * 4096 < installed memSize / 4 → s.mem.memMap f = 100) ∧
      ∀ p ∈ s.returned, installed memSize / 4 ≤ p.toNat ∧ p.toNat % 4096 = 0 := by
  -- the reserved counts stay 100, and the search takes a 0 only
  apply Transition.Reachable.invariant (I := fun s : Pages =>
    (∀ f, f * 4096 < installed memSize / 4 → s.mem.memMap f = 100) ∧
      ∀ p ∈ s.returned, installed memSize / 4 ≤ p.toNat ∧ p.toNat % 4096 = 0) _ _ reachable
  · intro s start
    have counted := counted_init enough start
    exact ⟨counted.reserved, fun p returned =>
      ⟨(counted.exclusive.usable p returned).1, counted.exclusive.aligned p returned⟩⟩
  · rintro s a s' ⟨reserved, above⟩ taken
    cases taken with
    | @get mem p done =>
      rcases s.mem.getFreePage_first with ⟨failed, _⟩ | ⟨f, small, zero, _, found⟩
      · obtain ⟨rfl, rfl⟩ := Prod.mk.inj (failed.symm.trans done)
        exact ⟨reserved, above⟩
      · obtain ⟨rfl, rfl⟩ := Prod.mk.inj (found.symm.trans done)
        have high : installed memSize / 4 ≤ f * 4096 := by
          by_contra low
          rw [reserved f (by omega)] at zero
          exact absurd zero (by decide)
        simp only [pagesSize] at small
        have addr := toNat_pageAddr (f := f) (by omega)
        rw [if_neg (pageAddr_ne_zero (by omega) (by omega))]
        constructor
        · intro g low
          have other : g ≠ f := by
            rintro rfl
            omega
          simp only [Memory.claimPage, Function.update_of_ne other]
          exact reserved g low
        · intro p returned
          rcases List.mem_cons.mp returned with rfl | old
          · omega
          · exact above p old
    | @free mem p returned done =>
      refine ⟨fun g low => ?_, above⟩
      have inside := above p returned
      have other : g ≠ frame p := by
        rintro rfl
        rw [frame_eq] at low
        omega
      exact (Memory.freePage_other done other).trans (reserved g low)

/-! ### A machine of 4 MB -/

theorem usable_four {f : Nat} : Usable 0x400000 f ↔ 256 ≤ f ∧ f < 1024 := by
  have size : installed 0x400000 = 0x400000 := by decide
  have bound : Mm.memSize.toNat = 0x2000000 := by decide
  rw [Usable, size, bound]
  omega

/-- The first 768 calls hand out main memory from the first page on. -/
theorem run_of_gets (n : Nat) (few : n ≤ 768) : ∃ hist s, Transition.Run (system 0x400000) hist s ∧
    Counted 0x400000 s ∧ (∀ x ∈ hist, x.2 = .get) ∧ hist.length = n ∧
    ∀ f, Usable 0x400000 f → (s.mem.memMap f = 0 ↔ 256 + n ≤ f) := by
  have enough : 0x400000 ≤ installed 0x400000 := by decide
  -- each call takes the lowest frame that is left, so the free ones stay an interval
  induction n with
  | zero =>
    obtain ⟨mem, done, _, _⟩ := initMemory_spec ⟨fun _ _ => 0, staticMemMap⟩ enough
    have start : (system 0x400000).init ⟨mem, [], []⟩ := ⟨⟨_, rfl, done⟩, rfl, rfl⟩
    have counted := counted_init enough start
    refine ⟨[], _, .init start, counted, by simp, rfl, ?_⟩
    intro f usable
    rw [counted.counts f usable]
    have := usable_four.mp usable
    simp [this.1]
  | succ n ih =>
    obtain ⟨hist, s, run, counted, gets, length, used⟩ := ih (by omega)
    have next : Usable 0x400000 (256 + n) := usable_four.mpr (by omega)
    have free : s.mem.memMap (256 + n) = 0 := (used _ next).mpr (Nat.le_refl _)
    rcases s.mem.getFreePage_first with ⟨_, full⟩ | ⟨f, small, zero, first, found⟩
    · exact absurd free (full _ next.small)
    · have usable := usable_of_found counted small zero first fun _ => Or.inl ⟨_, next, free⟩
      have here : f = 256 + n := by
        have := (used f usable).mp zero
        by_contra other
        exact first (256 + n) (by omega) free
      subst here
      have taken := Step.get found
      rw [if_neg (pageAddr_ne_zero (by omega) (by omega))] at taken
      refine ⟨_, _, .step run taken, counted.get usable zero, ?_, by simp [length], ?_⟩
      · intro x before
        rcases List.mem_cons.mp before with rfl | old
        · rfl
        · exact gets x old
      · intro f usable
        by_cases same : f = 256 + n
        · subst same
          simp [Memory.claimPage]
        · simp only [Memory.claimPage, Function.update_of_ne same]
          rw [used f usable]
          omega

/-- The 769th call hands out a page past the end of the memory. -/
theorem exclusive_lost : ∃ hist s, Transition.Run (system 0x400000) hist s ∧
    (∀ x ∈ hist, x.2 = .get) ∧ hist.length = 769 ∧ ¬ Exclusive 0x400000 s := by
  have enough : 0x400000 ≤ installed 0x400000 := by decide
  obtain ⟨hist, s, run, counted, gets, length, used⟩ := run_of_gets 768 (Nat.le_refl _)
  obtain ⟨⟨mem, p⟩, found⟩ : ∃ result, s.mem.getFreePage = result := ⟨_, rfl⟩
  have taken := Step.get found
  refine ⟨_, _, .step run taken, ?_, by simp [length], counted.lost enough taken ?_⟩
  · intro x before
    rcases List.mem_cons.mp before with rfl | old
    · rfl
    · exact gets x old
  · intro available
    rcases available rfl with ⟨f, usable, zero⟩ | full
    · have := (used f usable).mp zero
      have := usable_four.mp usable
      omega
    · exact full 1024 (by decide) (counted.absent 1024 (by decide) (by decide))

theorem exclusive_iff_get : ∃ s₀ s, Transition.Run (system 0x2000000) [(s₀, .get)] s ∧
    (((∀ x ∈ [(s₀, Action.get)], Exclusive 0x2000000 x.1) ∧ Exclusive 0x2000000 s) ↔
      ∀ x ∈ [(s₀, Action.get)], Available 0x2000000 x.1 x.2) := by
  have enough : 0x400000 ≤ installed 0x2000000 := by decide
  obtain ⟨mem, done, _, _⟩ := initMemory_spec ⟨fun _ _ => 0, staticMemMap⟩ enough
  have start : (system 0x2000000).init ⟨mem, [], []⟩ := ⟨⟨_, rfl, done⟩, rfl, rfl⟩
  obtain ⟨⟨mem', p⟩, found⟩ : ∃ result, mem.getFreePage = result := ⟨_, rfl⟩
  have taken : Step ⟨mem, [], []⟩ .get _ := Step.get found
  exact ⟨_, _, .step (.init start) taken, exclusive_iff enough (.step (.init start) taken)⟩

end Pages

end OperatorSystem.Mm
