import OperatorSystem.Mm.AddressSpace
import OperatorSystem.Mm.FreePageTables

/-!
# `copyPageTables` that runs out of pages

A copy of any number of directory entries may stop at each of them for want of
a page. `Filled m₀ m dst src n` is what holds there of the memory `m` reached
from `m₀`: the destination is the difference between the counts (`Borrowed`),
each of its tables is a page that was free, and it maps no more than its source
does. The counts stay inside 8 bits because two tables that map one frame are
at least nine directory entries apart (`Filled.apart`).
-/

namespace OperatorSystem.Mm

namespace Memory

variable {m m' : Memory}

/-- Words that point at the same frames give the same mappings. -/
theorem target_congr (same : ∀ g l, pointee (m'.page g l) = pointee (m.page g l)) :
    m'.target = m.target := by
  funext d k
  simp only [target, same]

theorem target_protect (m : Memory) (f k : Nat) :
    (m.setEntry f k (m.page f k &&& ~~~ pgRww)).target = m.target := by
  apply target_congr
  intro g l
  rw [setEntry_page]
  split
  next here => rw [here.1, here.2, pointee_protect]
  · rfl

end Memory

namespace Paged

variable {m : Memory} {pages : Nat → Nat}

/-- The page tables are counted as used. -/
theorem table_used (paged : Paged m pages) {d t : Nat} (small : d < 1024)
    (table : pointee (m.page 0 d) = some t) : t ≠ 0 ∧ m.memMap t ≠ 0 := by
  obtain ⟨present, here⟩ := pointee_eq_some.mp table
  by_cases identity : d < 8
  · rw [paged.identityDir d identity, frame_freshEntry (by omega)] at here
    rw [← here, paged.reserved (d + 1) (by omega)]
    exact ⟨by omega, by decide⟩
  · obtain ⟨user, _, _, main⟩ := paged.dirs ⟨d, small⟩ (by simpa using identity) present
    have target : m.dirTarget ⟨d, small⟩ = some t := Memory.dirTarget_eq_some.mpr ⟨user, present, here⟩
    refine ⟨paged.table_ne_zero target, ?_⟩
    intro zero
    have unused := (paged.sound.unused (here ▸ main) (toInt_eq_zero.mpr zero)).2
    have single := (paged.table_exclusive target).2.1
    omega

/-- Where a mapping comes from: an identity table, or the table of a slot. -/
theorem target_cases (paged : Paged m pages) {d k f : Nat} (small : d < 1024) (index : k < 1024)
    (target : m.target d k = some f) :
    (d < 8 ∧ f = 1024 * d + k) ∨
      16 ≤ d ∧ d % 16 = 0 ∧ ∃ w, m.look (⟨d, small⟩, ⟨k, index⟩) = some (f, w) := by
  obtain ⟨t, table, entry⟩ := Memory.target_eq_some.mp target
  obtain ⟨present, here⟩ := pointee_eq_some.mp table
  obtain ⟨present', here'⟩ := pointee_eq_some.mp entry
  by_cases identity : d < 8
  · left
    rw [paged.identityDir d identity, frame_freshEntry (by omega)] at here
    rw [← here, paged.identity d identity k index, frame_freshEntry (by omega)] at here'
    exact ⟨identity, here'.symm⟩
  · right
    obtain ⟨user, slot, _, _⟩ := paged.dirs ⟨d, small⟩ (by simpa using identity) present
    have behind : m.dirTarget ⟨d, small⟩ = some t := Memory.dirTarget_eq_some.mpr ⟨user, present, here⟩
    refine ⟨user, slot, decide (Writable (m.page t k)), ?_⟩
    rw [Memory.look_of_dirTarget behind, decode_eq_some]
    exact ⟨present', here', rfl⟩

theorem target_inside (paged : Paged m pages) {d k f : Nat} (small : d < 1024) (index : k < 1024)
    (target : m.target d k = some f) : f < pagesSize := by
  rcases paged.target_cases small index target with ⟨identity, rfl⟩ | ⟨_, _, w, found⟩
  · simp only [pagesSize]
    omega
  · rcases (paged.entries _ _ f w found).2 with main | ⟨rfl, _⟩
    · exact main.2
    · simp only [pagesSize]
      omega

/-- Two entries for one frame are nine directory entries apart. -/
theorem target_apart (paged : Paged m pages) {d d' k k' f : Nat} (order : d ≤ d')
    (small : d' < 1024) (index : k < 1024) (index' : k' < 1024)
    (left : m.target d k = some f) (right : m.target d' k' = some f) :
    (d = d' ∧ k = k') ∨ d + 9 ≤ d' := by
  rcases paged.target_cases (by omega) index left with ⟨low, same⟩ | ⟨user, slot, w, found⟩
  · rcases paged.target_cases small index' right with ⟨low', same'⟩ | ⟨user', _, _⟩ <;> omega
  · rcases paged.target_cases small index' right with ⟨low', _⟩ | ⟨_, slot', w', found'⟩
    · omega
    · have same := congrArg Fin.val (paged.sameIndex _ _ _ _ f w w' found found')
      change k = k' at same
      omega

end Paged

/-- The entries of a copy: `n` from `src` on into as many from `dst` on, which
begin at a slot and are empty. -/
structure Copyable (m : Memory) (dst src n : Nat) : Prop where
  slot : dst % 16 = 0
  user : 16 ≤ dst
  dest : dst + n ≤ 1024
  source : src + n ≤ 1024
  empty : ∀ d, dst ≤ d → d < dst + n → ¬ Present (m.page 0 d)

/-- What a copy may have done to `m₀` when it stops. -/
structure Filled (m₀ m : Memory) (dst src n : Nat) : Prop where
  borrowed : Borrowed m₀.memMap m dst (dst + n)
  outside : ∀ d, d < dst ∨ dst + n ≤ d → m.page 0 d = m₀.page 0 d
  absent : ∀ d, ¬ Present (m.page 0 d) → m.page 0 d = m₀.page 0 d
  free : ∀ d t, m.rangeTable dst (dst + n) d = some t → m₀.memMap t = 0
  source : ∀ j < n, Present (m.page 0 (dst + j)) → (src < dst ∨ dst + n ≤ src + j) ∧
    ∀ k < 1024, ∀ f, m.target (dst + j) k = some f → m.target (src + j) k = some f
  kept : ∀ g l, g ≠ 0 → m₀.memMap g ≠ 0 → m.page g l = m₀.page g l ∨
    (∃ j < n, pointee (m₀.page 0 (src + j)) = some g) ∧ m.page g l = m₀.page g l &&& ~~~ pgRww

namespace Filled

variable {m₀ m : Memory} {pages : Nat → Nat} {dst src n : Nat}

/-- Before the copy. -/
theorem refl (m : Memory) (copyable : Copyable m dst src n) : Filled m m dst src n := by
  have tables : ∀ d, m.rangeTable dst (dst + n) d = none := by
    intro d
    rw [Option.eq_none_iff_forall_ne_some]
    intro t table
    obtain ⟨low, high, points⟩ := Memory.rangeTable_eq_some.mp table
    exact copyable.empty d low high (pointee_eq_some.mp points).1
  have targets : ∀ x, m.rangeTarget dst (dst + n) x = none := by
    rintro ⟨d, k⟩
    rw [Option.eq_none_iff_forall_ne_some]
    intro f target
    obtain ⟨t, table, _⟩ := Memory.rangeTarget_eq_some.mp target
    rw [tables d] at table
    cases table
  -- nothing is present in the destination, so nothing is borrowed yet
  constructor
  · constructor
    · intro d t table
      rw [tables d] at table
      cases table
    · intro d d' t table
      rw [tables d] at table
      cases table
    · intro x f target
      rw [targets x] at target
      cases target
    · intro f _ _
      have none_mapped : Sharing.count (m.rangeTarget dst (dst + n)) f = 0 := by
        rw [Sharing.count_eq_zero]
        intro x
        rw [targets x]
        exact nofun
      have no_table : Sharing.count (m.rangeTable dst (dst + n)) f = 0 := by
        rw [Sharing.count_eq_zero]
        intro d
        rw [tables d]
        exact nofun
      rw [none_mapped, no_table, Nat.add_zero]
    · exact fun f _ => rfl
  · exact fun d _ => rfl
  · exact fun d _ => rfl
  · intro d t table
    rw [tables d] at table
    cases table
  · intro j small present
    exact absurd present (copyable.empty (dst + j) (by omega) (by omega))
  · exact fun g l _ _ => Or.inl rfl

theorem table_of_inside (filled : Filled m₀ m dst src n) {d t : Nat} (small : d < 1024) (low : dst ≤ d)
    (high : d < dst + n) (table : pointee (m.page 0 d) = some t) :
    m.rangeTable dst (dst + n) ⟨d, small⟩ = some t ∧ m₀.memMap t = 0 := by
  have here : m.rangeTable dst (dst + n) ⟨d, small⟩ = some t :=
    Memory.rangeTable_eq_some.mpr ⟨low, high, table⟩
  exact ⟨here, filled.free _ t here⟩

/-- A page that was free before is the table of no directory entry but one of the destination. -/
theorem table_ne (filled : Filled m₀ m dst src n) (paged : Paged m₀ pages) {d t t' : Nat} (small : d < 1024)
    (table : pointee (m.page 0 d) = some t') (free : m₀.memMap t = 0)
    (fresh : m.rangeTable dst (dst + n) ⟨d, small⟩ ≠ some t) : t' ≠ t := by
  rintro rfl
  by_cases elsewhere : d < dst ∨ dst + n ≤ d
  · rw [filled.outside d elsewhere] at table
    exact (paged.table_used small table).2 free
  · exact fresh (filled.table_of_inside small (by omega) (by omega) table).1

/-- The tables outside the destination map what they did. -/
theorem target_outside (filled : Filled m₀ m dst src n) (paged : Paged m₀ pages) {d : Nat}
    (small : d < 1024) (elsewhere : d < dst ∨ dst + n ≤ d) (k : Nat) :
    m.target d k = m₀.target d k := by
  rw [Memory.target, Memory.target, filled.outside d elsewhere]
  cases table : pointee (m₀.page 0 d) with
  | none => rfl
  | some t =>
    obtain ⟨nonzero, used⟩ := paged.table_used small table
    rcases filled.kept t k nonzero used with same | ⟨_, same⟩
    · simp only [Option.bind_some, same]
    · simp only [Option.bind_some, same, pointee_protect]

theorem target_inside (filled : Filled m₀ m dst src n) (paged : Paged m₀ pages) {d k f : Nat}
    (small : d < 1024) (index : k < 1024) (target : m.target d k = some f) : f < pagesSize := by
  by_cases elsewhere : d < dst ∨ dst + n ≤ d
  · rw [filled.target_outside paged small elsewhere] at target
    exact paged.target_inside small index target
  · have here : m.rangeTarget dst (dst + n) (⟨d, small⟩, ⟨k, index⟩) = some f := by
      rw [Memory.rangeTarget, if_pos (by simp only; omega)]
      exact target
    exact filled.borrowed.inside _ f here

/-- Two entries of the destination for one frame are nine directory entries
apart, by induction along the sources they were copied from. -/
theorem apart (filled : Filled m₀ m dst src n) (paged : Paged m₀ pages)
    (copyable : Copyable m₀ dst src n) {k k' f : Nat} (index : k < 1024) (index' : k' < 1024)
    {j j' : Nat} (order : j ≤ j') (small : j' < n)
    (left : m.target (dst + j) k = some f) (right : m.target (dst + j') k' = some f) :
    (j = j' ∧ k = k') ∨ j + 9 ≤ j' := by
  -- a source inside the destination was filled before from further below: the induction is on that order
  induction j' using Nat.strongRecOn generalizing j with
  | ind j' ih =>
    have present : ∀ d l, m.target d l = some f → Present (m.page 0 d) := by
      intro d l found
      obtain ⟨t, table, _⟩ := Memory.target_eq_some.mp found
      exact (pointee_eq_some.mp table).1
    obtain ⟨side, from_left⟩ := filled.source j (by omega) (present _ _ left)
    obtain ⟨side', from_right⟩ := filled.source j' small (present _ _ right)
    have left' := from_left k index f left
    have right' := from_right k' index' f right
    have dest := copyable.dest
    have range := copyable.source
    have user := copyable.user
    have slot := copyable.slot
    by_cases inside : dst ≤ src + j' ∧ src + j' < dst + n
    · have back : src < dst := by omega
      have earlier : src + j' = dst + (src + j' - dst) := by omega
      by_cases within : dst ≤ src + j
      · -- both sources have been copied before
        have earlier' : src + j = dst + (src + j - dst) := by omega
        rw [earlier'] at left'
        rw [earlier] at right'
        have := ih (src + j' - dst) (by omega) (by omega) (by omega) left' right'
        omega
      · -- no directory entry right below the destination is present
        rw [filled.target_outside paged (by omega) (by omega)] at left'
        rcases paged.target_cases (by omega) index left' with _ | _ <;> omega
    · -- both sources are outside the destination and as they were at the start
      have original : src + j < dst ∨ dst + n ≤ src + j := by omega
      rw [filled.target_outside paged (by omega) original] at left'
      rw [filled.target_outside paged (by omega) (by omega)] at right'
      have := paged.target_apart (by omega) (by omega) index index' left' right'
      omega

/-- Few entries of the destination map one frame. -/
theorem few (filled : Filled m₀ m dst src n) (paged : Paged m₀ pages)
    (copyable : Copyable m₀ dst src n) (f : Nat) :
    Sharing.count (m.rangeTarget dst (dst + n)) f ≤ 114 ∧
      Sharing.count (m.rangeTable dst (dst + n)) f ≤ 1 := by
  constructor
  · -- one frame is mapped at most once in nine directory entries
    have bound := Sharing.count_le_card (g := m.rangeTarget dst (dst + n)) (f := f)
      (fun x : Fin 1024 × Fin 1024 => (⟨x.1.val / 9, by omega⟩ : Fin 114)) ?_
    · exact bound.trans_eq (Fintype.card_fin 114)
    · -- entries with one key are less than nine apart
      have ordered : ∀ d k d' k' : Fin 1024, d ≤ d' → d.val / 9 = d'.val / 9 →
          m.rangeTarget dst (dst + n) (d, k) = some f → m.rangeTarget dst (dst + n) (d', k') = some f →
          (d, k) = (d', k') := by
        intro d k d' k' order near left right
        unfold Memory.rangeTarget at left right
        split at left
        next inside =>
          split at right
          next inside' =>
            simp only at inside inside'
            have order' : d.val ≤ d'.val := order
            have left' : m.target (dst + (d.val - dst)) k = some f := by
              rw [Nat.add_sub_cancel' inside.1]
              exact left
            have right' : m.target (dst + (d'.val - dst)) k' = some f := by
              rw [Nat.add_sub_cancel' inside'.1]
              exact right
            have := filled.apart paged copyable k.isLt k'.isLt (by omega) (by omega) left' right'
            rw [Prod.mk.injEq, Fin.ext_iff, Fin.ext_iff]
            omega
          · cases right
        · cases left
      rintro ⟨d, k⟩ ⟨d', k'⟩ left right key
      have near : d.val / 9 = d'.val / 9 := congrArg Fin.val key
      rcases le_total d d' with order | order
      · exact ordered d k d' k' order near left right
      · exact (ordered d' k' d k order near.symm right left).symm
  · -- a frame is the table of one directory entry only
    rw [Sharing.count, Finset.card_le_one]
    intro d here d' here'
    simp only [Finset.mem_filter, Finset.mem_univ, true_and] at here here'
    exact filled.borrowed.distinct d d' f here here'

/-- The counts are far from overflowing. -/
theorem toNat_memMap_lt (filled : Filled m₀ m dst src n) (paged : Paged m₀ pages)
    (copyable : Copyable m₀ dst src n) {f : Nat} (above : 256 ≤ f) (inside : f < pagesSize) :
    (m.memMap f).toNat < 255 := by
  have counted := filled.borrowed.exact f above inside
  obtain ⟨few, single⟩ := filled.few paged copyable f
  by_cases main : Main f
  · obtain ⟨low, high⟩ := paged.memMap_le main
    have cast : (m₀.memMap f).toNat ≤ 64 := by
      have below := (m₀.memMap f).isLt
      rw [BitVec.toInt_eq_toNat_cond] at low high
      split at low <;> omega
    omega
  · have reserved := paged.reserved f (by simp only [Main] at main; omega)
    have cast : (100 : BitVec 8).toNat = 100 := by decide
    rw [reserved, cast] at counted
    omega

/-- A free page is no table and in use nowhere. -/
theorem fresh (filled : Filled m₀ m dst src n) (paged : Paged m₀ pages) {f : Nat}
    (inside : f < pagesSize) (free : m.memMap f = 0) : Main f ∧ m₀.memMap f = 0 ∧
      (∀ d, m.rangeTable dst (dst + n) d ≠ some f) ∧ ∀ x, m.rangeTarget dst (dst + n) x ≠ some f := by
  have zero : (m.memMap f).toNat = 0 := by
    rw [free]
    rfl
  -- the low pages never become free
  have main : Main f := by
    refine ⟨?_, inside⟩
    by_contra low
    have reserved := paged.reserved f (by omega)
    have cast : (100 : BitVec 8).toNat = 100 := by decide
    by_cases above : 256 ≤ f
    · have counted := filled.borrowed.exact f above inside
      rw [reserved, cast] at counted
      omega
    · rw [filled.borrowed.other f (by omega), reserved, cast] at zero
      omega
  have counted := filled.borrowed.exact f (by have := main.1; omega) inside
  refine ⟨main, BitVec.eq_of_toNat_eq ?_, ?_, ?_⟩
  · change (m₀.memMap f).toNat = 0
    omega
  · exact Sharing.count_eq_zero.mp (by omega)
  · exact Sharing.count_eq_zero.mp (by omega)

/-- The table behind a present entry, from which may be copied. -/
theorem source_table (filled : Filled m₀ m dst src n) (paged : Paged m₀ pages) {d t : Nat}
    (small : d < 1024) (table : pointee (m.page 0 d) = some t) :
    t ≠ 0 ∧ (m₀.memMap t ≠ 0 → pointee (m₀.page 0 d) = some t) := by
  by_cases elsewhere : d < dst ∨ dst + n ≤ d
  · rw [filled.outside d elsewhere] at table
    exact ⟨(paged.table_used small table).1, fun _ => table⟩
  · obtain ⟨here, free⟩ := filled.table_of_inside small (by omega) (by omega) table
    exact ⟨filled.borrowed.table_ne_zero here, fun used => absurd free used⟩

/-- A word of a table copied from loses its write permission. -/
theorem protect (filled : Filled m₀ m dst src n) (paged : Paged m₀ pages)
    (copyable : Copyable m₀ dst src n) {i g : Nat} (inside : i < n)
    (table : pointee (m.page 0 (src + i)) = some g) (k : Nat) :
    Filled m₀ (m.setEntry g k (m.page g k &&& ~~~ pgRww)) dst src n := by
  have range := copyable.source
  obtain ⟨nonzero, original⟩ := filled.source_table paged (by omega) table
  -- the flags of an entry change, but neither the tables nor what their entries point to
  have targets := m.target_protect g k
  have dir : ∀ d, (m.setEntry g k (m.page g k &&& ~~~ pgRww)).page 0 d = m.page 0 d := by
    intro d
    rw [Memory.setEntry_page, if_neg (by rintro ⟨same, _⟩; exact nonzero same.symm)]
  have tables : (m.setEntry g k (m.page g k &&& ~~~ pgRww)).rangeTable dst (dst + n) =
      m.rangeTable dst (dst + n) := by
    funext d
    simp only [Memory.rangeTable, dir]
  have mapped : (m.setEntry g k (m.page g k &&& ~~~ pgRww)).rangeTarget dst (dst + n) =
      m.rangeTarget dst (dst + n) := by
    funext x
    simp only [Memory.rangeTarget, targets]
  constructor
  · constructor
    · rw [tables]
      exact filled.borrowed.main
    · rw [tables]
      exact filled.borrowed.distinct
    · rw [mapped]
      exact filled.borrowed.inside
    · rw [tables, mapped]
      exact filled.borrowed.exact
    · exact filled.borrowed.other
  · intro d elsewhere
    rw [dir]
    exact filled.outside d elsewhere
  · intro d absent
    rw [dir] at absent ⊢
    exact filled.absent d absent
  · rw [tables]
    exact filled.free
  · intro j small present
    rw [dir] at present
    rw [targets]
    exact filled.source j small present
  · -- the protected word is a word of a source table, which may differ in its flags
    intro g' l nonzero' used
    rw [Memory.setEntry_page]
    split
    next here =>
      obtain ⟨rfl, rfl⟩ := here
      refine Or.inr ⟨⟨i, inside, original used⟩, ?_⟩
      rcases filled.kept g' l nonzero' used with same | ⟨_, same⟩
      · rw [same]
      · rw [same, BitVec.and_assoc, BitVec.and_self]
    · exact filled.kept g' l nonzero' used

/-- A cleared word of a table of the destination gets a frame that its source maps. -/
theorem fill (filled : Filled m₀ m dst src n) (paged : Paged m₀ pages)
    (copyable : Copyable m₀ dst src n) {i t k f : Nat} (inside : i < n) (index : k < 1024)
    (table : pointee (m.page 0 (dst + i)) = some t) (cleared : pointee (m.page t k) = none)
    {v : BitVec 32} (points : pointee v = some f) (from_source : m.target (src + i) k = some f) :
    Filled m₀ (if 256 ≤ f then (m.setEntry t k v).setCount f (m.memMap f + 1) else m.setEntry t k v)
      dst src n := by
  have dest := copyable.dest
  have range := copyable.source
  obtain ⟨here, free⟩ := filled.table_of_inside (d := dst + i) (by omega) (by omega) (by omega) table
  have nonzero := filled.borrowed.table_ne_zero here
  have small := filled.target_inside paged (by omega) index from_source
  -- all but the count of the frame, which is changed only for a frame above the kernel
  have onlyPage : ∀ memMap : Nat → BitVec 8,
      Borrowed m₀.memMap { m.setEntry t k v with memMap } dst (dst + n) →
      Filled m₀ { m.setEntry t k v with memMap } dst src n := by
    intro memMap borrowed
    set m' : Memory := { m.setEntry t k v with memMap }
    have words : ∀ g l, m'.page g l = if g = t ∧ l = k then v else m.page g l :=
      fun g l => m.setEntry_page t k v g l
    have dir : ∀ d, m'.page 0 d = m.page 0 d := by
      intro d
      rw [words, if_neg (by rintro ⟨zero, _⟩; exact nonzero zero.symm)]
    -- only entry `k` of the new table points somewhere else
    have targets : ∀ d < 1024, ∀ l, m'.target d l =
        if d = dst + i ∧ l = k then some f else m.target d l := by
      intro d low l
      rw [Memory.target, dir]
      by_cases first : d = dst + i
      · subst first
        rw [Memory.target, table]
        simp only [Option.bind_some, words, true_and]
        split
        · exact points
        · rfl
      · rw [if_neg (by simp [first]), Memory.target]
        cases table' : pointee (m.page 0 d) with
        | none => rfl
        | some t' =>
          have other : t' ≠ t := filled.table_ne paged low table' free fun here' =>
            first (congrArg Fin.val (filled.borrowed.distinct _ _ t here' here))
          simp only [Option.bind_some, words, other, false_and, if_false]
    constructor
    · exact borrowed
    · intro d elsewhere
      rw [dir]
      exact filled.outside d elsewhere
    · intro d absent
      rw [dir] at absent ⊢
      exact filled.absent d absent
    · intro d t' table'
      simp only [Memory.rangeTable, dir] at table'
      exact filled.free d t' table'
    · intro j small' present
      rw [dir] at present
      obtain ⟨side, from_j⟩ := filled.source j small' present
      refine ⟨side, ?_⟩
      intro l low f' found
      rw [targets _ (by omega)] at found ⊢
      have none_before : m.target (dst + i) k = none := by
        rw [Memory.target, table]
        exact cleared
      -- the new entry is the copy of its source; no entry had a source there before
      by_cases new : dst + j = dst + i ∧ l = k
      · obtain rfl : j = i := by omega
        obtain rfl := new.2
        rw [if_pos ⟨rfl, rfl⟩] at found
        rw [if_neg (by omega), ← found]
        exact from_source
      · rw [if_neg new] at found
        have before := from_j l low f' found
        rw [if_neg ?_]
        · exact before
        · rintro ⟨overlap, rfl⟩
          rw [overlap, none_before] at before
          cases before
    · intro g l nonzero' used
      have other : g ≠ t := fun equal => used (equal ▸ free)
      rw [words, if_neg (by simp [other])]
      exact filled.kept g l nonzero' used
  -- the frame is one of the counted ones, and its count has room for one more
  have fits : ∀ g, pointee v = some g → g < pagesSize := by
    intro g found
    obtain rfl : f = g := Option.some.inj (points.symm.trans found)
    exact small
  by_cases above : 256 ≤ f
  · rw [if_pos above]
    apply onlyPage (Function.update m.memMap f (m.memMap f + 1))
    apply filled.borrowed.setEntry here ⟨k, index⟩ v _ fits
    · intro g _ _
      rw [cleared, points]
      by_cases equal : g = f
      · subst equal
        have room := filled.toNat_memMap_lt paged copyable above small
        have one : (1 : BitVec 8).toNat = 1 := by decide
        rw [Function.update_self, BitVec.toNat_add, one]
        simp only [reduceCtorEq, if_false, if_true]
        omega
      · have apart : f ≠ g := fun same => equal same.symm
        simp [equal, apart]
    · intro g elsewhere
      have apart : g ≠ f := by omega
      exact Function.update_of_ne apart _ _
  · rw [if_neg above]
    apply onlyPage m.memMap
    apply filled.borrowed.setEntry here ⟨k, index⟩ v m.memMap fits
    · intro g low _
      have apart : f ≠ g := by omega
      rw [cleared, points]
      simp [apart]
    · exact fun g _ => rfl

/-- One round of the inner loop of `copyPageTables`. -/
theorem copyEntry (filled : Filled m₀ m dst src n) (paged : Paged m₀ pages)
    (copyable : Copyable m₀ dst src n) {i t g k : Nat} (inside : i < n) (index : k < 1024)
    (table : pointee (m.page 0 (dst + i)) = some t) (from_table : pointee (m.page 0 (src + i)) = some g)
    (other : g ≠ t) (cleared : m.page t k = 0) :
    Filled m₀ (m.copyEntry g t k) dst src n ∧ (∀ d, (m.copyEntry g t k).page 0 d = m.page 0 d) ∧
      ∀ l, l ≠ k → (m.copyEntry g t k).page t l = m.page t l := by
  have range := copyable.source
  have dest := copyable.dest
  obtain ⟨nonzero, _⟩ := filled.source_table paged (by omega) from_table
  obtain ⟨nonzero', _⟩ := filled.source_table paged (by omega) table
  unfold Memory.copyEntry
  simp only
  by_cases present : Present (m.page g k)
  · rw [if_neg (not_not.mpr present)]
    have points : pointee (m.page g k &&& ~~~ pgRww) = some (frame (m.page g k)) := by
      rw [pointee_protect]
      exact pointee_eq_some.mpr ⟨present, rfl⟩
    have above := gt_kernelMem_iff ((present_protect _).mpr present)
    rw [frame_protect] at above
    have none_before : pointee (m.page t k) = none := by
      rw [cleared, pointee_zero]
    have from_source : m.target (src + i) k = some (frame (m.page g k)) :=
      Memory.target_eq_some.mpr ⟨g, from_table, pointee_eq_some.mpr ⟨present, rfl⟩⟩
    refine ⟨?_, ?_, ?_⟩
    · by_cases kernel : 256 ≤ frame (m.page g k)
      · rw [if_pos (above.mpr kernel), frame_protect, m.setEntry_comm other.symm]
        -- the word copied from is protected first, then its copy is written
        have guarded := filled.protect paged copyable inside from_table k
        have result := guarded.fill paged copyable inside index (t := t) (v := m.page g k &&& ~~~ pgRww)
          ?_ ?_ points ?_
        · rw [if_pos kernel] at result
          exact result
        · rw [Memory.setEntry_page, if_neg (by rintro ⟨same, _⟩; exact nonzero same.symm)]
          exact table
        · rw [Memory.setEntry_page, if_neg (by rintro ⟨same, _⟩; exact other same.symm)]
          exact none_before
        · rw [m.target_protect]
          exact from_source
      · rw [if_neg fun high => kernel (above.mp high)]
        have result := filled.fill paged copyable inside index table none_before points from_source
        rw [if_neg kernel] at result
        exact result
    · intro d
      split <;> simp [Memory.setCount, Memory.setEntry_page, nonzero.symm, nonzero'.symm]
    · intro l apart
      split <;> simp [Memory.setCount, Memory.setEntry_page, other.symm, apart]
  · rw [if_pos present]
    exact ⟨filled, fun _ => rfl, fun _ _ => rfl⟩

/-- A copied entry leaves the page that it maps counted, and frees none. -/
theorem copyEntry_used (filled : Filled m₀ m dst src n) (paged : Paged m₀ pages)
    (copyable : Copyable m₀ dst src n) {i t g k : Nat} (inside : i < n) (index : k < 1024)
    (from_table : pointee (m.page 0 (src + i)) = some g) :
    (∀ f, m.memMap f ≠ 0 → (m.copyEntry g t k).memMap f ≠ 0) ∧
      ∀ f, m.target (src + i) k = some f → 256 ≤ f → (m.copyEntry g t k).memMap f ≠ 0 := by
  have range := copyable.source
  have target : m.target (src + i) k = pointee (m.page g k) := by
    rw [Memory.target, from_table, Option.bind_some]
  unfold Memory.copyEntry
  simp only
  by_cases present : Present (m.page g k)
  · have points : pointee (m.page g k) = some (frame (m.page g k)) := pointee_eq_some.mpr ⟨present, rfl⟩
    have above := gt_kernelMem_iff ((present_protect _).mpr present)
    rw [frame_protect] at above
    rw [if_neg (not_not.mpr present), target, points]
    by_cases kernel : 256 ≤ frame (m.page g k)
    · -- the count stays below 255, so one more is not 0
      have small := filled.toNat_memMap_lt paged copyable kernel
        (filled.target_inside paged (d := src + i) (by omega) index (target.trans points))
      have counted : m.memMap (frame (m.page g k)) + 1 ≠ 0 := by
        intro zero
        have value := congrArg BitVec.toNat zero
        rw [BitVec.toNat_add] at value
        simp at value
        omega
      rw [if_pos (above.mpr kernel), frame_protect]
      simp only [Memory.setCount, Memory.setEntry]
      constructor
      · intro f used
        rw [Function.update_apply]
        split
        · exact counted
        · exact used
      · intro f here _
        rw [← Option.some.inj here, Function.update_self]
        exact counted
    · rw [if_neg fun high => kernel (above.mp high)]
      refine ⟨fun f used => used, fun f here high => ?_⟩
      rw [← Option.some.inj here] at high
      exact absurd high kernel
  · rw [if_pos present, target, pointee_eq_none.mpr present]
    exact ⟨fun f used => used, fun f here => absurd here (by simp)⟩

/-- The inner loop of `copyPageTables`, by induction on the number of entries left. -/
theorem copyEntries (paged : Paged m₀ pages) (copyable : Copyable m₀ dst src n) {i t g : Nat}
    (inside : i < n) (other : g ≠ t) {cnt : Nat} :
    ∀ {m : Memory} {k : Nat}, Filled m₀ m dst src n → k + cnt ≤ 1024 →
      pointee (m.page 0 (dst + i)) = some t → pointee (m.page 0 (src + i)) = some g →
      (∀ l, k ≤ l → l < 1024 → m.page t l = 0) →
      Filled m₀ (m.copyEntries g t cnt k) dst src n ∧
        (∀ d, (m.copyEntries g t cnt k).page 0 d = m.page 0 d) ∧
        (∀ f, m.memMap f ≠ 0 → (m.copyEntries g t cnt k).memMap f ≠ 0) ∧
        (src + i < dst → ∀ l, k ≤ l → l < k + cnt → ∀ f, m₀.target (src + i) l = some f → 256 ≤ f →
          (m.copyEntries g t cnt k).memMap f ≠ 0) := by
  have range := copyable.source
  -- entry by entry; the ones behind are still zero
  induction cnt with
  | zero =>
    intro m k filled _ _ _ _
    refine ⟨filled, fun _ => rfl, fun _ used => used, fun _ l low high => ?_⟩
    omega
  | succ cnt ih =>
    intro m k filled fits table from_table cleared
    have index : k < 1024 := by omega
    obtain ⟨filled₁, dir, later⟩ :=
      filled.copyEntry paged copyable inside index table from_table other (cleared k (le_refl k) index)
    have cleared₁ : ∀ l, k + 1 ≤ l → l < 1024 → (m.copyEntry g t k).page t l = 0 := by
      intro l low high
      rw [later l (by omega)]
      exact cleared l (by omega) high
    obtain ⟨used, marked⟩ := filled.copyEntry_used paged copyable (t := t) inside index from_table
    obtain ⟨filled', dir', used', marked'⟩ := ih (k := k + 1) filled₁ (by omega) (by rw [dir]; exact table)
      (by rw [dir]; exact from_table) cleared₁
    refine ⟨filled', fun d => (dir' d).trans (dir d), fun f counted => used' f (used f counted), ?_⟩
    intro below l low high f here above
    by_cases first : l = k
    · subst first
      rw [← filled.target_outside paged (d := src + i) (by omega) (.inl below)] at here
      exact used' f (marked f here above)
    · exact marked' below l (by omega) (by omega) f here above

/-- A free page becomes the table behind an entry of the destination. -/
theorem link (filled : Filled m₀ m dst src n) (paged : Paged m₀ pages)
    (copyable : Copyable m₀ dst src n) {i t : Nat} (inside : i < n)
    (absent : ∀ d, dst + i ≤ d → d < dst + n → ¬ Present (m.page 0 d))
    (present : Present (m.page 0 (src + i))) (small : t < pagesSize) (free : m.memMap t = 0) :
    Filled m₀ ((m.claimPage t).setEntry 0 (dst + i) (freshEntry t)) dst src n := by
  have dest := copyable.dest
  have range := copyable.source
  obtain ⟨main, free₀, notTable, _⟩ := filled.fresh paged small free
  have nonzero : t ≠ 0 := by
    have := main.1
    omega
  have here : ¬ Present (m.page 0 (dst + i)) := absent (dst + i) (by omega) (by omega)
  -- the new table is empty, so the targets stay; the directory has one table more
  set m' := (m.claimPage t).setEntry 0 (dst + i) (freshEntry t) with same
  have dir : ∀ d, m'.page 0 d = if d = dst + i then freshEntry t else m.page 0 d := by
    intro d
    rw [same, Memory.setEntry_page]
    simp [Memory.claimPage, nonzero.symm]
  have words : ∀ g, g ≠ 0 → g ≠ t → m'.page g = m.page g := by
    intro g other other'
    simp [same, Memory.setEntry, Memory.claimPage, other, other']
  have fresh : ∀ l, m'.page t l = 0 := by
    intro l
    simp [same, Memory.setEntry, Memory.claimPage, nonzero]
  have points : pointee (freshEntry t) = some t := pointee_freshEntry main.small
  have targets : ∀ d < 1024, ∀ l, m'.target d l = m.target d l := by
    intro d low l
    rw [Memory.target, Memory.target, dir]
    by_cases new : d = dst + i
    · subst new
      rw [if_pos rfl, points, pointee_eq_none.mpr here]
      simp only [Option.bind_some, Option.bind_none, fresh, pointee_zero]
    · rw [if_neg new]
      cases table : pointee (m.page 0 d) with
      | none => rfl
      | some t' =>
        have other := filled.table_ne paged low table free₀ (notTable _)
        simp only [Option.bind_some, words t' (filled.source_table paged low table).1 other]
  have tables : m'.rangeTable dst (dst + n) =
      Function.update (m.rangeTable dst (dst + n)) ⟨dst + i, by omega⟩ (some t) := by
    funext d
    by_cases new : d = ⟨dst + i, by omega⟩
    · subst new
      rw [Function.update_self, Memory.rangeTable_eq_some, dir, if_pos rfl]
      exact ⟨Nat.le_add_right dst i, Nat.add_lt_add_left inside dst, points⟩
    · have apart : d.val ≠ dst + i := fun equal => new (Fin.ext equal)
      rw [Function.update_of_ne new]
      simp only [Memory.rangeTable, dir, apart, if_false]
  have mapped : m'.rangeTarget dst (dst + n) = m.rangeTarget dst (dst + n) := by
    funext x
    simp only [Memory.rangeTarget, targets x.1 x.1.isLt]
  have before : m.rangeTable dst (dst + n) ⟨dst + i, by omega⟩ = none := by
    simp only [Memory.rangeTable, pointee_eq_none.mpr here, ite_self]
  constructor
  · exact filled.borrowed.addTable main free notTable before tables mapped rfl
  · intro d elsewhere
    rw [dir, if_neg (by omega)]
    exact filled.outside d elsewhere
  · intro d missing
    rw [dir] at missing ⊢
    by_cases new : d = dst + i
    · rw [if_pos new] at missing
      exact absurd (present_freshEntry t) missing
    · rw [if_neg new] at missing ⊢
      exact filled.absent d missing
  · intro d t' found
    rw [tables] at found
    rcases Sharing.update_eq_some found with ⟨_, rfl⟩ | ⟨_, old⟩
    · exact free₀
    · exact filled.free d t' old
  · intro j low there
    by_cases new : j = i
    · subst new
      refine ⟨?_, ?_⟩
      · -- the entries of the destination from here on are still empty
        by_contra overlap
        exact absent (src + j) (by omega) (by omega) present
      · intro k _ f found
        rw [targets _ (by omega), Memory.target, pointee_eq_none.mpr here] at found
        cases found
    · rw [dir, if_neg (by omega)] at there
      obtain ⟨side, from_j⟩ := filled.source j low there
      refine ⟨side, ?_⟩
      intro k index f found
      rw [targets _ (by omega)] at found ⊢
      exact from_j k index f found
  · intro g l nonzero' used
    have other : g ≠ t := fun equal => used (equal ▸ free₀)
    rw [words g nonzero' other]
    exact filled.kept g l nonzero' used

/-- What the rounds of the outer loop do for the entries from `i` to `i + size`, when
the result is `r`: the entries before stay, no page is freed, and if all were copied,
those of a source below the destination are there, with their pages counted. -/
structure Copied (m₀ m : Memory) (dst src n cnt i size : Nat) (m' : Memory) (r : BitVec 32) : Prop where
  filled : Filled m₀ m' dst src n
  before : ∀ d, d < dst + i → m'.page 0 d = m.page 0 d
  later : r = 0 → ∀ d, dst + (i + size) ≤ d → d < dst + n → ¬ Present (m'.page 0 d)
  used : ∀ f, m.memMap f ≠ 0 → m'.memMap f ≠ 0
  done : r = 0 → ∀ j, i ≤ j → j < i + size → src + j < dst → Present (m₀.page 0 (src + j)) →
    Present (m'.page 0 (dst + j)) ∧
      ∀ l < cnt, ∀ f, m₀.target (src + j) l = some f → 256 ≤ f → m'.memMap f ≠ 0

/-- The outer loop of `copyPageTables`, by induction on the number of directory
entries left: it may stop at any of them. -/
theorem copyDirs_spec (paged : Paged m₀ pages) (copyable : Copyable m₀ dst src n) {cnt : Nat}
    (bound : cnt ≤ 1024) {size : Nat} : ∀ {m : Memory} {i : Nat}, Filled m₀ m dst src n →
      i + size ≤ n → (∀ d, dst + i ≤ d → d < dst + n → ¬ Present (m.page 0 d)) →
      Copied m₀ m dst src n cnt i size (m.copyDirs cnt size (dst + i) (src + i)).1
        (m.copyDirs cnt size (dst + i) (src + i)).2 := by
  -- the induction is on the directory entries that are left; those of the destination from here on are empty
  induction size with
  | zero =>
    intro m i filled _ absent
    exact ⟨filled, fun _ _ => rfl, fun _ => absent, fun _ used => used, fun _ j low high => by omega⟩
  | succ size ih =>
    intro m i filled total absent
    have inside : i < n := by omega
    have later : ∀ m' : Memory, (∀ d, d ≠ dst + i → m'.page 0 d = m.page 0 d) →
        ∀ d, dst + (i + 1) ≤ d → d < dst + n → ¬ Present (m'.page 0 d) := by
      intro m' same d low high
      rw [same d (by omega)]
      exact absent d (by omega) high
    rw [Memory.copyDirs, if_neg (absent (dst + i) (by omega) (by omega))]
    by_cases present : Present (m.page 0 (src + i))
    · rw [if_neg (not_not.mpr present)]
      rcases m.getFreePage_cases with ⟨failed, _⟩ | ⟨t, small, free, found⟩
      · simp only [failed, if_true]
        have minus : (-1 : BitVec 32) ≠ 0 := by decide
        exact ⟨filled, fun _ _ => rfl, fun zero => absurd zero minus, fun _ used => used,
          fun zero => absurd zero minus⟩
      · obtain ⟨main, free₀, notTable, _⟩ := filled.fresh paged small free
        have nonzero : t ≠ 0 := by
          have := main.1
          omega
        have dest := copyable.dest
        have range := copyable.source
        have from_table : pointee (m.page 0 (src + i)) = some (frame (m.page 0 (src + i))) :=
          pointee_eq_some.mpr ⟨present, rfl⟩
        have apart : src + i ≠ dst + i := by
          intro same
          exact absent (dst + i) (by omega) (by omega) (same ▸ present)
        have other : frame (m.page 0 (src + i)) ≠ t := by
          intro same
          rw [same] at from_table
          by_cases elsewhere : src + i < dst ∨ dst + n ≤ src + i
          · rw [filled.outside _ elsewhere] at from_table
            exact (paged.table_used (by omega) from_table).2 free₀
          · exact notTable _ (filled.table_of_inside (by omega) (by omega) (by omega) from_table).1
        -- first the new table is linked, then its entries are copied from the source
        have linked := filled.link paged copyable inside absent present small free
        have dir : ∀ d, ((m.claimPage t).setEntry 0 (dst + i) (freshEntry t)).page 0 d =
            if d = dst + i then freshEntry t else m.page 0 d := by
          intro d
          rw [Memory.setEntry_page]
          simp [Memory.claimPage, nonzero.symm]
        have cleared : ∀ l, 0 ≤ l → l < 1024 →
            ((m.claimPage t).setEntry 0 (dst + i) (freshEntry t)).page t l = 0 := by
          intro l _ _
          simp [Memory.setEntry, Memory.claimPage, nonzero]
        have claimed : ∀ f, m.memMap f ≠ 0 →
            ((m.claimPage t).setEntry 0 (dst + i) (freshEntry t)).memMap f ≠ 0 := by
          intro f used
          have elsewhere : f ≠ t := fun same => used (same ▸ free)
          simpa [Memory.setEntry, Memory.claimPage, elsewhere] using used
        have fits : 0 + cnt ≤ 1024 := by omega
        obtain ⟨filled', dir', used', marked⟩ := copyEntries paged copyable inside other linked
          fits (by rw [dir, if_pos rfl, pointee_freshEntry main.small])
          (by rw [dir, if_neg apart]; exact from_table) cleared
        simp only [found, pageAddr_ne_zero main.small (Nat.pos_of_ne_zero nonzero), if_false,
          frame_pageAddr main.small]
        have rest := ih (i := i + 1) filled' (by omega) (later _ fun d different => by
          rw [dir' d, dir d, if_neg different])
        refine ⟨rest.filled, ?_, ?_, fun f counted => rest.used f (used' f (claimed f counted)), ?_⟩
        · intro d low
          have kept := (dir d).trans (if_neg (show d ≠ dst + i by omega))
          exact (rest.before d (by omega)).trans ((dir' d).trans kept)
        · intro zero d low
          exact rest.later zero d (by omega)
        · intro zero j low high below there
          by_cases first : j = i
          · subst first
            refine ⟨?_, fun l small f here above => rest.used f (marked below l (by omega) (by omega) f here above)⟩
            have there := (rest.before (dst + j) (by omega)).trans ((dir' _).trans ((dir _).trans (if_pos rfl)))
            exact there ▸ present_freshEntry t
          · exact rest.done zero j (by omega) (by omega) below there
    · rw [if_pos present]
      have rest := ih (i := i + 1) filled (by omega) (later m fun _ _ => rfl)
      refine ⟨rest.filled, fun d low => rest.before d (by omega), fun zero d low => rest.later zero d (by omega),
        rest.used, ?_⟩
      intro zero j low high below there
      have first : j ≠ i := by
        rintro rfl
        rw [filled.outside _ (.inl below)] at present
        exact present there
      exact rest.done zero j (by omega) (by omega) below there

/-- The outer loop, in two parts. -/
theorem copyDirs_add (m : Memory) (cnt a b d d' : Nat) : m.copyDirs cnt (a + b) d d' =
    if (m.copyDirs cnt a d d').2 = 0 then (m.copyDirs cnt a d d').1.copyDirs cnt b (d + a) (d' + a)
    else m.copyDirs cnt a d d' := by
  induction a generalizing m d d' with
  | zero => simp [Memory.copyDirs]
  | succ a ih =>
    have shift : ∀ x, x + 1 + a = x + (a + 1) := fun x => by omega
    rw [Nat.add_right_comm, Memory.copyDirs, Memory.copyDirs]
    -- the first entry stops the copy, is passed over, or is copied
    split
    · rfl
    · split
      · rw [ih, shift, shift]
      · dsimp only
        split
        · rfl
        · rw [ih, shift, shift]

/-- Without a free page the copy fails at the next entry that is there. -/
theorem copyDirs_starved {m : Memory} (starved : ∀ f < pagesSize, m.memMap f ≠ 0) (cnt : Nat) {size d d' j : Nat}
    (small : j < size) (present : Present (m.page 0 (d' + j))) : m.copyDirs cnt size d d' = (m, -1) := by
  have failed : m.getFreePage = (m, 0) := by
    rcases m.getFreePage_cases with ⟨failed, _⟩ | ⟨f, inside, free, _⟩
    · exact failed
    · exact absurd free (starved f inside)
  induction size generalizing d d' j with
  | zero => omega
  | succ size ih =>
    rw [Memory.copyDirs]
    split
    · rfl
    · split
      next missing =>
        cases j with
        | zero => exact absurd present missing
        | succ j =>
          have there : Present (m.page 0 (d' + 1 + j)) := by
            rw [Nat.add_right_comm]
            exact present
          exact ih (by omega) there
      · simp only [failed, if_true]

end Filled

/-! ### The undo -/

/-- The counts and the mappings are as they were. An entry of the directory that
was empty may have been cleared; the frames in use have the words they had, up to
the write permissions in the tables of the `n` directory entries from `src` on. -/
structure Restored (m m' : Memory) (src n : Nat) : Prop where
  memMap : m'.memMap = m.memMap
  dir : ∀ d, Present (m.page 0 d) ∨ m.page 0 d = 0 → m'.page 0 d = m.page 0 d
  absent : ∀ d, ¬ Present (m.page 0 d) → ¬ Present (m'.page 0 d)
  target : ∀ d < 1024, ∀ k, m'.target d k = m.target d k
  kept : ∀ g l, g ≠ 0 → m.memMap g ≠ 0 → m'.page g l = m.page g l ∨
    (∃ j < n, pointee (m.page 0 (src + j)) = some g) ∧ m'.page g l = m.page g l &&& ~~~ pgRww

theorem Restored.refl (m : Memory) (src n : Nat) : Restored m m src n :=
  ⟨rfl, fun _ _ => rfl, fun _ absent => absent, fun _ _ _ => rfl, fun _ _ _ _ => Or.inl rfl⟩

/-- Wherever the copy stopped, `freePageTables` on the destination undoes it. -/
theorem Filled.undo {m₀ m : Memory} {pages : Nat → Nat} {dst src n : Nat}
    (filled : Filled m₀ m dst src n) (paged : Paged m₀ pages) (copyable : Copyable m₀ dst src n) :
    ∃ m', m.freeDirs n dst = some m' ∧ Restored m₀ m' src n := by
  obtain ⟨m', done, memMap, dir, rest⟩ := filled.borrowed.freeDirs copyable.dest
  have user := copyable.user
  -- a frame that was in use is no table of the copy
  have words : ∀ g, g ≠ 0 → m₀.memMap g ≠ 0 → m'.page g = m.page g := by
    intro g nonzero used
    exact rest g nonzero fun d table => used (filled.free d g table)
  have outside : ∀ d, d < dst ∨ dst + n ≤ d → m'.page 0 d = m₀.page 0 d := by
    intro d elsewhere
    rw [dir d, if_neg (by omega)]
    exact filled.outside d elsewhere
  have inside : ∀ d, m'.page 0 d = m₀.page 0 d ∨ m'.page 0 d = 0 := by
    intro d
    rw [dir d]
    split
    · exact Or.inr rfl
    next stays =>
      left
      by_cases elsewhere : d < dst ∨ dst + n ≤ d
      · exact filled.outside d elsewhere
      · exact filled.absent d fun present => stays ⟨by omega, by omega, present⟩
  have absent : ∀ d, ¬ Present (m₀.page 0 d) → ¬ Present (m'.page 0 d) := by
    intro d missing
    rcases inside d with same | zero
    · rw [same]
      exact missing
    · rw [zero]
      decide
  refine ⟨m', done, memMap, ?_, absent, ?_, ?_⟩
  · intro d known
    by_cases elsewhere : d < dst ∨ dst + n ≤ d
    · exact outside d elsewhere
    · have missing := copyable.empty d (by omega) (by omega)
      rcases inside d with same | zero
      · exact same
      · rw [zero, known.resolve_left missing]
  · intro d small k
    by_cases elsewhere : d < dst ∨ dst + n ≤ d
    · rw [← filled.target_outside paged small elsewhere, Memory.target, Memory.target,
        outside d elsewhere, filled.outside d elsewhere]
      cases table : pointee (m₀.page 0 d) with
      | none => rfl
      | some t =>
        obtain ⟨nonzero, used⟩ := paged.table_used small table
        simp only [Option.bind_some, words t nonzero used]
    · have missing := copyable.empty d (by omega) (by omega)
      rw [Memory.target, Memory.target, pointee_eq_none.mpr missing,
        pointee_eq_none.mpr (absent d missing), Option.bind_none, Option.bind_none]
  · intro g l nonzero used
    rw [words g nonzero used]
    exact filled.kept g l nonzero used

/-- A page is taken before and given back after. -/
theorem Restored.around {m m' : Memory} {pages : Nat → Nat} {src n f : Nat} (paged : Paged m pages)
    (main : Main f) (free : m.memMap f = 0) (restored : Restored (m.claimPage f) m' src n) :
    m'.freePage (pageAddr f) = some (m'.setCount f 0) ∧ Restored m (m'.setCount f 0) src n := by
  have nonzero : 0 ≠ f := by
    have := main.1
    omega
  have dir : (m.claimPage f).page 0 = m.page 0 := Function.update_of_ne nonzero _ _
  have once : m'.memMap f = 1 := by
    rw [restored.memMap]
    exact Function.update_self f 1 m.memMap
  refine ⟨Memory.freePage_pageAddr main once, ?_⟩
  -- the frame is free again, and everything else is as the inner part has restored it
  constructor
  · funext g
    change Function.update m'.memMap f 0 g = _
    rw [restored.memMap]
    by_cases claimed : g = f
    · rw [claimed, Function.update_self, free]
    · rw [Function.update_of_ne claimed]
      exact Function.update_of_ne claimed _ _
  · intro d known
    rw [← dir] at known ⊢
    exact restored.dir d known
  · intro d absent
    rw [← dir] at absent
    exact restored.absent d absent
  · intro d small k
    have same := restored.target d small k
    change m'.target d k = m.target d k
    rw [same, Memory.target, Memory.target, dir]
    cases table : pointee (m.page 0 d) with
    | none => rfl
    | some t =>
      have other : t ≠ f := fun equal => (paged.table_used small table).2 (equal ▸ free)
      simp only [Memory.claimPage, Option.bind_some, Function.update_of_ne other]
  · intro g l nonzero' used
    have other : g ≠ f := fun equal => used (equal ▸ free)
    have counted : (m.claimPage f).memMap g = m.memMap g := Function.update_of_ne other _ _
    have words : (m.claimPage f).page g = m.page g := Function.update_of_ne other _ _
    have kept := restored.kept g l nonzero' (by rw [counted]; exact used)
    rw [words, dir] at kept
    exact kept

end OperatorSystem.Mm
