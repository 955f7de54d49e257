import OperatorSystem.Mm.PageFunctions

/-!
# `freePageTables` on a range of directory entries

`Borrowed counts m lo hi` says that the tables behind the directory entries
`[lo, hi)`, and the pages they map, are the whole difference between `MEM_MAP`
and `counts`. Then `freePageTables` on the range gives exactly `counts` back
(`Borrowed.freeDirs`), whichever of the entries are present.
-/

namespace OperatorSystem.Mm

/-- The frame a present entry points at. -/
def pointee (e : BitVec 32) : Option Nat := if Present e then some (frame e) else none

theorem pointee_eq_some {e : BitVec 32} {f : Nat} : pointee e = some f ↔ Present e ∧ frame e = f := by
  unfold pointee
  split
  next present => simp [present]
  next absent => simp [absent]

theorem pointee_eq_none {e : BitVec 32} : pointee e = none ↔ ¬ Present e := by
  unfold pointee
  split
  next present => simp [present]
  next absent => simp [absent]

theorem pointee_zero : pointee 0 = none := by decide

@[simp] theorem pointee_protect (e : BitVec 32) : pointee (e &&& ~~~ pgRww) = pointee e := by
  simp [pointee]

theorem pointee_freshEntry {f : Nat} (small : f < 2 ^ 20) : pointee (freshEntry f) = some f := by
  simp [pointee, frame_freshEntry small]

namespace Memory

/-- The frame mapped by entry `k` of the table behind directory entry `d`. -/
def target (m : Memory) (d k : Nat) : Option Nat :=
  (pointee (m.page 0 d)).bind fun t => pointee (m.page t k)

/-- The frames mapped through the directory entries `[lo, hi)`. -/
def rangeTarget (m : Memory) (lo hi : Nat) (x : Fin 1024 × Fin 1024) : Option Nat :=
  if lo ≤ x.1.val ∧ x.1.val < hi then m.target x.1 x.2 else none

/-- The page tables behind the directory entries `[lo, hi)`. -/
def rangeTable (m : Memory) (lo hi : Nat) (d : Fin 1024) : Option Nat :=
  if lo ≤ d.val ∧ d.val < hi then pointee (m.page 0 d) else none

variable {m m' : Memory} {lo hi : Nat}

theorem target_eq_some {d k f : Nat} :
    m.target d k = some f ↔ ∃ t, pointee (m.page 0 d) = some t ∧ pointee (m.page t k) = some f := by
  rw [target, Option.bind_eq_some_iff]

theorem rangeTable_eq_some {d : Fin 1024} {t : Nat} : m.rangeTable lo hi d = some t ↔
    lo ≤ d.val ∧ d.val < hi ∧ pointee (m.page 0 d) = some t := by
  unfold rangeTable
  split
  next inside => simp [inside]
  next outside =>
    simp only [reduceCtorEq, false_iff]
    rintro ⟨low, high, _⟩
    exact outside ⟨low, high⟩

theorem rangeTarget_eq_some {d k : Fin 1024} {f : Nat} : m.rangeTarget lo hi (d, k) = some f ↔
    ∃ t, m.rangeTable lo hi d = some t ∧ pointee (m.page t k) = some f := by
  unfold rangeTarget rangeTable
  split
  · exact target_eq_some
  · simp

theorem rangeTarget_of_table {d k : Fin 1024} {t : Nat} (table : m.rangeTable lo hi d = some t) :
    m.rangeTarget lo hi (d, k) = pointee (m.page t k) := by
  cases points : pointee (m.page t k) with
  | none =>
    rw [Option.eq_none_iff_forall_ne_some]
    intro f found
    obtain ⟨t', table', points'⟩ := rangeTarget_eq_some.mp found
    obtain rfl : t' = t := Option.some.inj (table'.symm.trans table)
    rw [points] at points'
    cases points'
  | some f => exact rangeTarget_eq_some.mpr ⟨t, table, points⟩

/-- `freePage` on the frame of an entry. -/
theorem freePage_pageBase (m : Memory) {e : BitVec 32} (inside : frame e < pagesSize)
    (used : 256 ≤ frame e → m.memMap (frame e) ≠ 0) :
    m.freePage (pageBase e) = some (if 256 ≤ frame e then
      m.setCount (frame e) (m.memMap (frame e) - 1) else m) := by
  have above := pageBase_ge_kernelMem_iff e
  have below : ¬ pageBase e ≥ memSize := by
    rw [ge_iff_le, BitVec.le_def]
    have base := frame_eq (pageBase e)
    rw [frame_pageBase] at base
    simp only [pagesSize] at inside
    change ¬ 0x2000000 ≤ _
    omega
  unfold freePage
  -- pages below 1 MB are left alone
  by_cases kernel : 256 ≤ frame e
  · have high : ¬ pageBase e < kernelMem := by
      rw [BitVec.not_lt]
      exact above.mpr kernel
    simp only [high, below, if_false, frame_pageBase, if_pos kernel]
    exact if_pos (used kernel)
  · have low : pageBase e < kernelMem := by
      rw [← BitVec.not_le]
      exact fun high => kernel (above.mp high)
    simp [low, kernel]

theorem freeEntries_succ (m : Memory) (t cnt k : Nat) :
    m.freeEntries t (cnt + 1) k =
      (if Present (m.page t k) then m.freePage (pageBase (m.page t k)) else some m).bind fun m =>
        (m.setEntry t k 0).freeEntries t cnt (k + 1) := by
  rw [freeEntries]
  split <;> rfl

end Memory

/-- The range `[lo, hi)` of the directory is the difference between `MEM_MAP`
and `counts`: its tables count once, and each of their entries counts once for
the frame it maps, where that is above 1 MB. -/
structure Borrowed (counts : Nat → BitVec 8) (m : Memory) (lo hi : Nat) : Prop where
  main : ∀ d t, m.rangeTable lo hi d = some t → Main t
  distinct : ∀ d d' t, m.rangeTable lo hi d = some t → m.rangeTable lo hi d' = some t → d = d'
  inside : ∀ x f, m.rangeTarget lo hi x = some f → f < pagesSize
  exact : ∀ f, 256 ≤ f → f < pagesSize → (m.memMap f).toNat =
    (counts f).toNat + Sharing.count (m.rangeTarget lo hi) f + Sharing.count (m.rangeTable lo hi) f
  other : ∀ f, f < 256 ∨ pagesSize ≤ f → m.memMap f = counts f

namespace Borrowed

variable {counts : Nat → BitVec 8} {m : Memory} {lo hi : Nat}

theorem table_ne_zero (borrowed : Borrowed counts m lo hi) {d : Fin 1024} {t : Nat}
    (table : m.rangeTable lo hi d = some t) : t ≠ 0 := by
  have := (borrowed.main d t table).1
  omega

/-- A word of a table of the range is set. -/
theorem setEntry_range (borrowed : Borrowed counts m lo hi) {d : Fin 1024} {t : Nat}
    (table : m.rangeTable lo hi d = some t) (k : Fin 1024) (v : BitVec 32) :
    (m.setEntry t k v).rangeTable lo hi = m.rangeTable lo hi ∧
      (m.setEntry t k v).rangeTarget lo hi =
        Function.update (m.rangeTarget lo hi) (d, k) (pointee v) := by
  have nonzero := borrowed.table_ne_zero table
  have dirs : (m.setEntry t k v).rangeTable lo hi = m.rangeTable lo hi := by
    funext d'
    simp only [Memory.rangeTable, Memory.setEntry, Function.update_of_ne nonzero.symm]
  refine ⟨dirs, ?_⟩
  funext x
  obtain ⟨d', k'⟩ := x
  cases table' : m.rangeTable lo hi d' with
  | none =>
    have apart : (d', k') ≠ (d, k) := by
      rintro same
      cases same
      rw [table] at table'
      cases table'
    have before : m.rangeTarget lo hi (d', k') = none := by
      rw [Option.eq_none_iff_forall_ne_some]
      intro f found
      obtain ⟨t', here, _⟩ := Memory.rangeTarget_eq_some.mp found
      rw [table'] at here
      cases here
    have after : (m.setEntry t k v).rangeTarget lo hi (d', k') = none := by
      rw [Option.eq_none_iff_forall_ne_some]
      intro f found
      obtain ⟨t', here, _⟩ := Memory.rangeTarget_eq_some.mp found
      rw [dirs, table'] at here
      cases here
    rw [Function.update_of_ne apart, before, after]
  | some t' =>
    rw [Memory.rangeTarget_of_table (dirs ▸ table'), Memory.setEntry_page]
    -- the table of another directory entry is another one
    by_cases same : d' = d
    · subst same
      obtain rfl : t' = t := Option.some.inj (table'.symm.trans table)
      by_cases index : k' = k
      · subst index
        simp
      · have apart : (d', k') ≠ (d', k) := by simp [index]
        have apart' : k'.val ≠ k.val := fun equal => index (Fin.ext equal)
        rw [Function.update_of_ne apart, Memory.rangeTarget_of_table table', if_neg (by simp [apart'])]
    · have other : t' ≠ t := by
        rintro rfl
        exact same (borrowed.distinct d' d t' table' table)
      have apart : (d', k') ≠ (d, k) := by simp [same]
      rw [Function.update_of_ne apart, Memory.rangeTarget_of_table table', if_neg (by simp [other])]

/-- A word of a table of the range is set, and the counts follow it. -/
theorem setEntry (borrowed : Borrowed counts m lo hi) {d : Fin 1024} {t : Nat}
    (table : m.rangeTable lo hi d = some t) (k : Fin 1024) (v : BitVec 32) (memMap : Nat → BitVec 8)
    (small : ∀ f, pointee v = some f → f < pagesSize)
    (follows : ∀ f, 256 ≤ f → f < pagesSize →
      (memMap f).toNat + (if pointee (m.page t k) = some f then 1 else 0) =
        (m.memMap f).toNat + (if pointee v = some f then 1 else 0))
    (same : ∀ f, f < 256 ∨ pagesSize ≤ f → memMap f = m.memMap f) :
    Borrowed counts { m.setEntry t k v with memMap } lo hi := by
  obtain ⟨dirs, targets⟩ := borrowed.setEntry_range table k v
  change Memory.rangeTable { m.setEntry t k v with memMap } lo hi = _ at dirs
  change Memory.rangeTarget { m.setEntry t k v with memMap } lo hi = _ at targets
  constructor
  · rw [dirs]
    exact borrowed.main
  · rw [dirs]
    exact borrowed.distinct
  · intro x f found
    rw [targets] at found
    by_cases here : x = (d, k)
    · rw [here, Function.update_self] at found
      exact small f found
    · rw [Function.update_of_ne here] at found
      exact borrowed.inside x f found
  · intro f low high
    -- one target has moved, and the counts follow it
    have moved := Sharing.count_update (m.rangeTarget lo hi) (d, k) (pointee v) f
    have before := borrowed.exact f low high
    have after := follows f low high
    rw [Memory.rangeTarget_of_table table] at moved
    rw [dirs, targets]
    simp only
    omega
  · intro f outside
    exact (same f outside).trans (borrowed.other f outside)

/-- An empty table in a free page gets an entry of the range that had none. -/
theorem addTable (borrowed : Borrowed counts m lo hi) {m' : Memory} {d : Fin 1024} {t : Nat} (main : Main t)
    (free : m.memMap t = 0) (fresh : ∀ d', m.rangeTable lo hi d' ≠ some t) (before : m.rangeTable lo hi d = none)
    (tables : m'.rangeTable lo hi = Function.update (m.rangeTable lo hi) d (some t))
    (targets : m'.rangeTarget lo hi = m.rangeTarget lo hi) (memMap : m'.memMap = Function.update m.memMap t 1) :
    Borrowed counts m' lo hi := by
  constructor
  · intro d' t' found
    rw [tables] at found
    rcases Sharing.update_eq_some found with ⟨_, rfl⟩ | ⟨_, old⟩
    · exact main
    · exact borrowed.main d' t' old
  · intro d' d'' t' left right
    rw [tables] at left right
    rcases Sharing.update_eq_some left with ⟨first, rfl⟩ | ⟨_, old⟩
    · rcases Sharing.update_eq_some right with ⟨second, _⟩ | ⟨_, old'⟩
      · exact first.trans second.symm
      · exact absurd old' (fresh d'')
    · rcases Sharing.update_eq_some right with ⟨_, rfl⟩ | ⟨_, old'⟩
      · exact absurd old (fresh d')
      · exact borrowed.distinct d' d'' t' old old'
  · rw [targets]
    exact borrowed.inside
  · intro f low high
    -- the frame of the table is counted once, and no table had it before
    have moved := Sharing.count_update (m.rangeTable lo hi) d (some t) f
    have counted := borrowed.exact f low high
    rw [before, if_neg (by simp), Nat.add_zero] at moved
    rw [tables, targets, memMap, moved]
    by_cases claimed : f = t
    · subst claimed
      rw [free] at counted
      have zero : (0 : BitVec 8).toNat = 0 := rfl
      have one : (1 : BitVec 8).toNat = 1 := by decide
      rw [Function.update_self, one, if_pos rfl]
      omega
    · have apart : some t ≠ some f := fun equal => claimed (Option.some.inj equal).symm
      rw [Function.update_of_ne claimed, if_neg apart]
      omega
  · intro f elsewhere
    have apart : f ≠ t := by
      have := main.1
      have := main.2
      omega
    rw [memMap, Function.update_of_ne apart]
    exact borrowed.other f elsewhere

/-- The page of an entry of the range is freed, and the entry cleared. -/
theorem freeEntry (borrowed : Borrowed counts m lo hi) {d : Fin 1024} {t : Nat}
    (table : m.rangeTable lo hi d = some t) (k : Fin 1024) :
    ∃ m', (if Present (m.page t k) then m.freePage (pageBase (m.page t k)) else some m) = some m' ∧
      m'.page = m.page ∧ Borrowed counts (m'.setEntry t k 0) lo hi := by
  have target := Memory.rangeTarget_of_table (k := k) table
  have nothing : ∀ f, pointee 0 = some f → f < pagesSize := by
    intro f found
    rw [pointee_zero] at found
    cases found
  by_cases present : Present (m.page t k)
  · have points : pointee (m.page t k) = some (frame (m.page t k)) :=
      pointee_eq_some.mpr ⟨present, rfl⟩
    have small := borrowed.inside (d, k) _ (target.trans points)
    -- a frame that is mapped has a count that can be taken down
    have used : 256 ≤ frame (m.page t k) → 0 < (m.memMap (frame (m.page t k))).toNat := by
      intro above
      have before := borrowed.exact _ above small
      have counted : Sharing.count (m.rangeTarget lo hi) (frame (m.page t k)) ≠ 0 := by
        intro zero
        exact Sharing.count_eq_zero.mp zero (d, k) (target.trans points)
      omega
    have freed := m.freePage_pageBase small fun above zero => by
      have := used above
      rw [zero] at this
      cases this
    rw [if_pos present, freed]
    refine ⟨_, rfl, ?_, ?_⟩
    · split <;> rfl
    · by_cases above : 256 ≤ frame (m.page t k)
      · rw [if_pos above]
        apply borrowed.setEntry table k 0 (Function.update m.memMap (frame (m.page t k))
          (m.memMap (frame (m.page t k)) - 1)) nothing
        · intro f low high
          by_cases here : f = frame (m.page t k)
          · subst here
            have positive := used above
            have one : (1 : BitVec 8).toNat = 1 := by decide
            have below := (m.memMap (frame (m.page t k))).isLt
            rw [Function.update_self, points, pointee_zero, BitVec.toNat_sub, one]
            simp only [if_true, reduceCtorEq, if_false]
            omega
          · have apart : frame (m.page t k) ≠ f := fun same => here same.symm
            rw [Function.update_of_ne here, points, pointee_zero]
            simp [apart]
        · intro f outside
          have apart : f ≠ frame (m.page t k) := by omega
          exact Function.update_of_ne apart _ _
      · -- a frame of the kernel is not counted
        rw [if_neg above]
        apply borrowed.setEntry table k 0 m.memMap nothing
        · intro f low high
          have apart : frame (m.page t k) ≠ f := by omega
          rw [points, pointee_zero]
          simp [apart]
        · exact fun f _ => rfl
  · have points := pointee_eq_none.mpr present
    rw [if_neg present]
    refine ⟨m, rfl, rfl, borrowed.setEntry table k 0 m.memMap nothing ?_ ?_⟩
    · intro f _ _
      rw [points, pointee_zero]
    · exact fun f _ => rfl

/-- The inner loop of `freePageTables`, by induction on the number of entries left. -/
theorem freeEntries {d : Fin 1024} {t cnt : Nat} :
    ∀ {m : Memory} {k : Nat}, Borrowed counts m lo hi → m.rangeTable lo hi d = some t →
      k + cnt ≤ 1024 → ∃ m', m.freeEntries t cnt k = some m' ∧ Borrowed counts m' lo hi ∧
        (∀ g, g ≠ t → m'.page g = m.page g) ∧
        ∀ l, m'.page t l = if k ≤ l ∧ l < k + cnt then 0 else m.page t l := by
  -- the induction is on the entries that are left
  induction cnt with
  | zero =>
    intro m k borrowed table _
    refine ⟨m, rfl, borrowed, fun _ _ => rfl, ?_⟩
    intro l
    rw [if_neg (by omega)]
  | succ cnt ih =>
    intro m k borrowed table fits
    have index : k < 1024 := by omega
    obtain ⟨m₁, freed, page, borrowed₁⟩ := borrowed.freeEntry table ⟨k, index⟩
    have nonzero := borrowed.table_ne_zero table
    have table₁ : (m₁.setEntry t k 0).rangeTable lo hi d = some t := by
      rw [← table]
      simp only [Memory.rangeTable, Memory.setEntry, Function.update_of_ne nonzero.symm, page]
    obtain ⟨m', done, borrowed', others, entries⟩ := ih (k := k + 1) borrowed₁ table₁ (by omega)
    refine ⟨m', ?_, borrowed', ?_, ?_⟩
    · rw [Memory.freeEntries_succ, freed]
      exact done
    · intro g other
      rw [others g other]
      simp only [Memory.setEntry, Function.update_of_ne other, page]
    · intro l
      rw [entries l, Memory.setEntry_page, page]
      by_cases here : l = k
      · subst here
        simp
      · have shifted : (k + 1 ≤ l ∧ l < k + 1 + cnt) ↔ (k ≤ l ∧ l < k + (cnt + 1)) := by omega
        simp only [here, and_false, if_false, shifted]

/-- A first directory entry with nothing behind it needs no undoing. -/
theorem skip (borrowed : Borrowed counts m lo hi) (absent : ¬ Present (m.page 0 lo)) :
    Borrowed counts m (lo + 1) hi := by
  -- an entry that is not present contributes nothing
  have table : m.rangeTable (lo + 1) hi = m.rangeTable lo hi := by
    funext d
    by_cases first : d.val = lo
    · have none : pointee (m.page 0 d) = none := pointee_eq_none.mpr (first ▸ absent)
      simp [Memory.rangeTable, none]
    · have shifted : (lo + 1 ≤ d.val ∧ d.val < hi) ↔ (lo ≤ d.val ∧ d.val < hi) := by omega
      simp only [Memory.rangeTable, shifted]
  have target : m.rangeTarget (lo + 1) hi = m.rangeTarget lo hi := by
    funext x
    obtain ⟨d, k⟩ := x
    by_cases first : d.val = lo
    · have none : m.target d k = none := by
        rw [Memory.target, pointee_eq_none.mpr (first ▸ absent)]
        rfl
      simp [Memory.rangeTarget, none]
    · have shifted : (lo + 1 ≤ d.val ∧ d.val < hi) ↔ (lo ≤ d.val ∧ d.val < hi) := by omega
      simp only [Memory.rangeTarget, shifted]
  constructor
  · rw [table]
    exact borrowed.main
  · rw [table]
    exact borrowed.distinct
  · rw [target]
    exact borrowed.inside
  · rw [table, target]
    exact borrowed.exact
  · exact borrowed.other

/-- The first directory entry is cleared, its table being empty and freed. -/
theorem freeTable (borrowed : Borrowed counts m lo hi) (small : lo < 1024) {t : Nat}
    (table : m.rangeTable lo hi ⟨lo, small⟩ = some t) (cleared : ∀ k < 1024, m.page t k = 0) :
    m.freePage (pageBase (m.page 0 lo)) = some (m.setCount t (m.memMap t - 1)) ∧
      Borrowed counts ((m.setCount t (m.memMap t - 1)).setEntry 0 lo 0) (lo + 1) hi := by
  obtain ⟨_, above, points⟩ := Memory.rangeTable_eq_some.mp table
  obtain ⟨present, here⟩ := pointee_eq_some.mp points
  have main := borrowed.main _ _ table
  have nonzero := borrowed.table_ne_zero table
  have high : 256 ≤ t := by
    have := main.1
    omega
  have counted : Sharing.count (m.rangeTable lo hi) t ≠ 0 := by
    intro zero
    exact Sharing.count_eq_zero.mp zero _ table
  have exact_t := borrowed.exact t high main.2
  -- the table itself is counted as long as the directory has it
  have used : m.memMap t ≠ 0 := by
    intro zero
    rw [zero] at exact_t
    change 0 = _ at exact_t
    omega
  constructor
  · change frame (m.page 0 lo) = t at here
    have freed := m.freePage_pageBase (e := m.page 0 lo) (here ▸ main.2) fun _ => here ▸ used
    rw [freed, here, if_pos high]
  · set m' := (m.setCount t (m.memMap t - 1)).setEntry 0 lo 0 with same
    have dir : ∀ d, m'.page 0 d = if d = lo then 0 else m.page 0 d := by
      intro d
      rw [same, Memory.setEntry_page]
      simp [Memory.setCount]
    have words : ∀ g, g ≠ 0 → m'.page g = m.page g := by
      intro g other
      simp only [same, Memory.setEntry, Memory.setCount, Function.update_of_ne other]
    have tables : m'.rangeTable (lo + 1) hi = Function.update (m.rangeTable lo hi) ⟨lo, small⟩ none := by
      funext d
      by_cases first : d = ⟨lo, small⟩
      · subst first
        simp [Memory.rangeTable]
      · have apart : d.val ≠ lo := fun equal => first (Fin.ext equal)
        have shifted : (lo + 1 ≤ d.val ∧ d.val < hi) ↔ (lo ≤ d.val ∧ d.val < hi) := by omega
        rw [Function.update_of_ne first]
        simp only [Memory.rangeTable, dir, apart, if_false, shifted]
    -- its entries are cleared, so no target is lost with it
    have targets : m'.rangeTarget (lo + 1) hi = m.rangeTarget lo hi := by
      funext x
      obtain ⟨d, k⟩ := x
      by_cases first : d = ⟨lo, small⟩
      · subst first
        rw [Memory.rangeTarget_of_table table, cleared k k.isLt, pointee_zero]
        simp [Memory.rangeTarget]
      · have apart : d.val ≠ lo := fun equal => first (Fin.ext equal)
        have shifted : (lo + 1 ≤ d.val ∧ d.val < hi) ↔ (lo ≤ d.val ∧ d.val < hi) := by omega
        simp only [Memory.rangeTarget, Memory.target, dir, apart, if_false, shifted]
        split
        next inside =>
          cases entry : pointee (m.page 0 d) with
          | none => rfl
          | some t' =>
            have table' := Memory.rangeTable_eq_some.mpr ⟨inside.1, inside.2, entry⟩
            simp only [Option.bind_some, words t' (borrowed.table_ne_zero table')]
        · rfl
    have kept : ∀ d t', m'.rangeTable (lo + 1) hi d = some t' → m.rangeTable lo hi d = some t' := by
      intro d t' found
      rw [tables] at found
      by_cases first : d = ⟨lo, small⟩
      · rw [first, Function.update_self] at found
        cases found
      · rw [Function.update_of_ne first] at found
        exact found
    constructor
    · exact fun d t' found => borrowed.main d t' (kept d t' found)
    · exact fun d d' t' left right => borrowed.distinct d d' t' (kept d t' left) (kept d' t' right)
    · rw [targets]
      exact borrowed.inside
    · intro f low inside
      -- the directory has one table less, and its frame one use less
      have moved := Sharing.count_update (m.rangeTable lo hi) ⟨lo, small⟩ none f
      have before := borrowed.exact f low inside
      have memMap : m'.memMap f = Function.update m.memMap t (m.memMap t - 1) f := rfl
      rw [table] at moved
      rw [memMap, tables, targets]
      simp only [reduceCtorEq, if_false, Option.some.injEq] at moved
      by_cases freed : f = t
      · subst freed
        have one : (1 : BitVec 8).toNat = 1 := by decide
        have below := (m.memMap f).isLt
        rw [Function.update_self, BitVec.toNat_sub, one]
        simp only [if_true] at moved
        omega
      · have apart : t ≠ f := fun equal => freed equal.symm
        rw [Function.update_of_ne freed]
        simp only [apart, if_false] at moved
        omega
    · intro f outside
      have apart : f ≠ t := by
        have := main.2
        omega
      have memMap : m'.memMap f = Function.update m.memMap t (m.memMap t - 1) f := rfl
      rw [memMap, Function.update_of_ne apart]
      exact borrowed.other f outside

/-- One round of the outer loop of `freePageTables` on a present entry. -/
theorem freeDir (borrowed : Borrowed counts m lo hi) (small : lo < 1024) {t : Nat}
    (table : m.rangeTable lo hi ⟨lo, small⟩ = some t) (size : Nat) :
    ∃ m', m.freeDirs (size + 1) lo = m'.freeDirs size (lo + 1) ∧ Borrowed counts m' (lo + 1) hi ∧
      (∀ d, m'.page 0 d = if d = lo then 0 else m.page 0 d) ∧
      ∀ g, g ≠ 0 → g ≠ t → m'.page g = m.page g := by
  obtain ⟨_, _, points⟩ := Memory.rangeTable_eq_some.mp table
  obtain ⟨present, here⟩ := pointee_eq_some.mp points
  change Present (m.page 0 lo) at present
  change frame (m.page 0 lo) = t at here
  have nonzero := borrowed.table_ne_zero table
  have fits : 0 + 1024 ≤ 1024 := le_rfl
  -- first the entries of the table are freed, then the table
  obtain ⟨m₁, done₁, borrowed₁, others, entries⟩ := borrowed.freeEntries table fits
  have dir : ∀ d, m₁.page 0 d = m.page 0 d := fun d => congrFun (others 0 nonzero.symm) d
  have table₁ : m₁.rangeTable lo hi ⟨lo, small⟩ = some t := by
    rw [← table]
    simp only [Memory.rangeTable, dir]
  have cleared : ∀ k < 1024, m₁.page t k = 0 := by
    intro k inside
    rw [entries k, if_pos (by omega)]
  obtain ⟨freed, borrowed₂⟩ := borrowed₁.freeTable small table₁ cleared
  refine ⟨_, ?_, borrowed₂, ?_, ?_⟩
  · rw [Memory.freeDirs, if_neg (not_not.mpr present), here, done₁]
    change (m₁.freePage (pageBase (m₁.page 0 lo))).bind _ = _
    rw [freed]
    rfl
  · intro d
    rw [Memory.setEntry_page, ← dir d]
    simp [Memory.setCount]
  · intro g other other'
    rw [← others g other']
    simp only [Memory.setEntry, Memory.setCount, Function.update_of_ne other]

/-- The range empty, the counts are the old ones. -/
theorem memMap_eq (borrowed : Borrowed counts m lo lo) : m.memMap = counts := by
  funext f
  by_cases managed : 256 ≤ f ∧ f < pagesSize
  · have targets : Sharing.count (m.rangeTarget lo lo) f = 0 := by
      rw [Sharing.count_eq_zero]
      intro x
      simp [Memory.rangeTarget]
    have tables : Sharing.count (m.rangeTable lo lo) f = 0 := by
      rw [Sharing.count_eq_zero]
      intro d
      simp [Memory.rangeTable]
    apply BitVec.eq_of_toNat_eq
    rw [borrowed.exact f managed.1 managed.2, targets, tables, Nat.add_zero]
  · exact borrowed.other f (by omega)

/-- The outer loop of `freePageTables`, by induction on the number of directory
entries left: the counts are the old ones, and only the range and its tables
have changed. -/
theorem freeDirs {n : Nat} : ∀ {m : Memory} {lo : Nat}, Borrowed counts m lo (lo + n) →
    lo + n ≤ 1024 → ∃ m', m.freeDirs n lo = some m' ∧ m'.memMap = counts ∧
      (∀ d, m'.page 0 d = if lo ≤ d ∧ d < lo + n ∧ Present (m.page 0 d) then 0 else m.page 0 d) ∧
      ∀ g, g ≠ 0 → (∀ d, m.rangeTable lo (lo + n) d ≠ some g) → m'.page g = m.page g := by
  induction n with
  | zero =>
    intro m lo borrowed _
    refine ⟨m, rfl, borrowed.memMap_eq, ?_, fun _ _ _ => rfl⟩
    intro d
    rw [if_neg (by omega)]
  | succ n ih =>
    intro m lo borrowed fits
    have index : lo < 1024 := by omega
    have ends : lo + (n + 1) = lo + 1 + n := by omega
    -- what remains of the range after its first entry
    have later : ∀ d : Fin 1024, ∀ g, m.rangeTable lo (lo + (n + 1)) d ≠ some g → ∀ m₁ : Memory,
        (lo + 1 ≤ d.val → m₁.page 0 d = m.page 0 d) → m₁.rangeTable (lo + 1) (lo + 1 + n) d ≠ some g := by
      intro d g notTable m₁ same found
      obtain ⟨low, high, points⟩ := Memory.rangeTable_eq_some.mp found
      rw [same low] at points
      exact notTable (Memory.rangeTable_eq_some.mpr ⟨by omega, by omega, points⟩)
    by_cases present : Present (m.page 0 lo)
    · have table : m.rangeTable lo (lo + (n + 1)) ⟨lo, index⟩ = some (frame (m.page 0 lo)) := by
        refine Memory.rangeTable_eq_some.mpr ⟨le_refl lo, ?_, pointee_eq_some.mpr ⟨present, rfl⟩⟩
        change lo < _
        omega
      obtain ⟨m₁, first, borrowed₁, dir, others⟩ := borrowed.freeDir index table n
      rw [ends] at borrowed₁
      obtain ⟨m', done, counts', dir', rest⟩ := ih borrowed₁ (by omega)
      refine ⟨m', first.trans done, counts', ?_, ?_⟩
      · intro d
        rw [dir' d, dir d]
        by_cases here : d = lo
        · subst here
          rw [if_neg (by omega), if_pos rfl, if_pos ⟨le_refl d, by omega, present⟩]
        · have shifted : (lo + 1 ≤ d ∧ d < lo + 1 + n) ↔ (lo ≤ d ∧ d < lo + (n + 1)) := by omega
          simp only [here, if_false, ← and_assoc, shifted]
      · intro g nonzero notTable
        have other : g ≠ frame (m.page 0 lo) := fun same => notTable _ (same ▸ table)
        rw [rest g nonzero fun d => later d g (notTable d) m₁ ?_, others g nonzero other]
        intro high
        rw [dir d, if_neg (by omega)]
    · obtain ⟨m', done, counts', dir', rest⟩ := ih (ends ▸ borrowed.skip present) (by omega)
      refine ⟨m', ?_, counts', ?_, ?_⟩
      · rw [Memory.freeDirs, if_pos present, done]
      · intro d
        rw [dir' d]
        by_cases here : d = lo
        · subst here
          rw [if_neg (by omega), if_neg (fun inside => present inside.2.2)]
        · have shifted : (lo + 1 ≤ d ∧ d < lo + 1 + n) ↔ (lo ≤ d ∧ d < lo + (n + 1)) := by omega
          simp only [← and_assoc, shifted]
      · intro g nonzero notTable
        exact rest g nonzero fun d => later d g (notTable d) m fun _ => rfl

end Borrowed

end OperatorSystem.Mm
