import Mathlib.Data.Fintype.Prod
import OperatorSystem.Library.Sharing
import OperatorSystem.Mm.Memory

/-!
# The paging invariant

`Paged m pages` is what the page functions keep on a machine of 32 MB: the
identity tables of the boot loader are intact, every further directory entry
belongs to the first 4 MB of a task slot, and the entries of these tables share
the frames of main memory as `Sharing.Sound` says, where `pages f` counts the
uses of frame `f` that are not in the page tables.
-/

namespace OperatorSystem.Mm

/-- The frames of main memory, `[mem / 4, mem)`. -/
def Main (f : Nat) : Prop := 2048 ≤ f ∧ f < pagesSize

/-- What an entry maps and whether it may be written. -/
def decode (e : BitVec 32) : Option (Nat × Bool) :=
  if Present e then some (frame e, decide (Writable e)) else none

namespace Memory

/-- The page table behind a directory entry of the task address spaces. -/
def dirTarget (m : Memory) (d : Fin 1024) : Option Nat :=
  if 16 ≤ d.val ∧ Present (m.page 0 d) then some (frame (m.page 0 d)) else none

/-- The second-level entry with index `i.2` in the table behind directory entry `i.1`. -/
def look (m : Memory) (i : Fin 1024 × Fin 1024) : Option (Nat × Bool) :=
  match m.dirTarget i.1 with
  | none => none
  | some t => decode (m.page t i.2)

/-- The present second-level entries of task address spaces that map `f`. -/
def mappings (m : Memory) (f : Nat) : Nat := Sharing.refs m.look f

/-- The directory entries of task address spaces that use `f` as a page table. -/
def tables (m : Memory) (f : Nat) : Nat := Sharing.count m.dirTarget f

end Memory

structure Paged (m : Memory) (pages : Nat → Nat) : Prop where
  identityDir : ∀ d < 8, m.page 0 d = freshEntry (d + 1)
  identity : ∀ d < 8, ∀ k < 1024, m.page (d + 1) k = freshEntry (1024 * d + k)
  dirs : ∀ d : Fin 1024, 8 ≤ d.val → Present (m.page 0 d) →
    16 ≤ d.val ∧ d.val % 16 = 0 ∧ Writable (m.page 0 d) ∧ Main (frame (m.page 0 d))
  entries : ∀ d k f w, m.look (d, k) = some (f, w) →
    k.val < 160 ∧ (Main f ∨ f = k.val ∧ w = false)
  sameIndex : ∀ d k d' k' f w w', m.look (d, k) = some (f, w) → m.look (d', k') = some (f, w') →
    k = k'
  reserved : ∀ f < 2048, m.memMap f = 100
  sound : Sharing.Sound Main m.look (fun f => m.tables f + pages f) fun f => (m.memMap f).toInt

/-! ### Reading the tables -/

theorem decode_eq_some {e : BitVec 32} {f : Nat} {w : Bool} :
    decode e = some (f, w) ↔ Present e ∧ frame e = f ∧ decide (Writable e) = w := by
  unfold decode
  split
  next present => simp [present]
  next absent => simp [absent]

theorem decode_eq_none {e : BitVec 32} : decode e = none ↔ ¬ Present e := by
  unfold decode
  split
  next present => simp [present]
  next absent => simp [absent]

namespace Memory

theorem dirTarget_eq_some {m : Memory} {d : Fin 1024} {t : Nat} :
    m.dirTarget d = some t ↔ 16 ≤ d.val ∧ Present (m.page 0 d) ∧ frame (m.page 0 d) = t := by
  unfold dirTarget
  split
  next here => simp [here]
  next absent =>
    simp only [reduceCtorEq, false_iff, not_and]
    intro user present
    exact absurd ⟨user, present⟩ absent

theorem look_eq_some {m : Memory} {d k : Fin 1024} {f : Nat} {w : Bool} :
    m.look (d, k) = some (f, w) ↔ ∃ t, m.dirTarget d = some t ∧ decode (m.page t k) = some (f, w) := by
  unfold look
  cases m.dirTarget d <;> simp

theorem look_of_dirTarget {m : Memory} {d : Fin 1024} {t : Nat} (table : m.dirTarget d = some t)
    (k : Fin 1024) : m.look (d, k) = decode (m.page t k) := by
  simp [look, table]

theorem dirTarget_setEntry (m : Memory) {t : Nat} (nonzero : t ≠ 0) (k : Nat) (v : BitVec 32) :
    (m.setEntry t k v).dirTarget = m.dirTarget := by
  funext d
  simp only [dirTarget, setEntry, Function.update_of_ne nonzero.symm]

/-- The tables only depend on the directory and on the frames used as tables. -/
theorem look_congr {m m' : Memory} (dirs : m'.dirTarget = m.dirTarget)
    (same : ∀ d t, m.dirTarget d = some t → m'.page t = m.page t) : m'.look = m.look := by
  funext x
  obtain ⟨d, k⟩ := x
  unfold look
  rw [dirs]
  cases table : m.dirTarget d with
  | none => rfl
  | some t => simp [same d t table]

end Memory

namespace Paged

variable {m : Memory} {pages : Nat → Nat}

theorem main_of_dirTarget (paged : Paged m pages) {d : Fin 1024} {t : Nat}
    (table : m.dirTarget d = some t) : Main t := by
  obtain ⟨user, present, rfl⟩ := Memory.dirTarget_eq_some.mp table
  exact (paged.dirs d (by omega) present).2.2.2

/-- No frame of a table is mapped, or a table twice. -/
theorem table_exclusive (paged : Paged m pages) {d : Fin 1024} {t : Nat}
    (table : m.dirTarget d = some t) : m.mappings t = 0 ∧ m.tables t = 1 ∧ pages t = 0 := by
  have used : m.tables t ≠ 0 := fun zero => Sharing.count_eq_zero.mp zero d table
  obtain ⟨unmapped, single⟩ := paged.sound.exclusive t (paged.main_of_dirTarget table) (by omega)
  exact ⟨unmapped, by omega, by omega⟩

theorem table_ne_zero (paged : Paged m pages) {d : Fin 1024} {t : Nat}
    (table : m.dirTarget d = some t) : t ≠ 0 := by
  have := (paged.main_of_dirTarget table).1
  omega

theorem table_unique (paged : Paged m pages) {d d' : Fin 1024} {t : Nat}
    (table : m.dirTarget d = some t) (table' : m.dirTarget d' = some t) : d = d' :=
  Sharing.count_unique (le_of_eq (paged.table_exclusive table).2.1) table table'

/-- A mapped frame of main memory is in no other use. -/
theorem mapped_exclusive (paged : Paged m pages) {d k : Fin 1024} {f : Nat} {w : Bool}
    (mapped : m.look (d, k) = some (f, w)) (main : Main f) : m.tables f = 0 ∧ pages f = 0 := by
  have := paged.sound.other_eq_zero mapped main
  omega

theorem not_table_of_mapped (paged : Paged m pages) {d k d' : Fin 1024} {f : Nat} {w : Bool}
    (mapped : m.look (d, k) = some (f, w)) : m.dirTarget d' ≠ some f := by
  intro table
  have := (paged.table_exclusive table).1
  exact Sharing.refs_ne_zero mapped this

/-- At most one entry in each of the 64 slots maps a frame. -/
theorem mappings_le (paged : Paged m pages) (f : Nat) : m.mappings f ≤ 64 := by
  have bound := Sharing.count_le_card (g := fun i => (m.look i).map Prod.fst) (f := f)
    (fun i : Fin 1024 × Fin 1024 => (⟨i.1.val / 16, by omega⟩ : Fin 64)) ?_
  · exact bound.trans_eq (Fintype.card_fin 64)
  · rintro ⟨d, k⟩ ⟨d', k'⟩ left right slot
    obtain ⟨w, left⟩ := Sharing.map_fst_eq_some.mp left
    obtain ⟨w', right⟩ := Sharing.map_fst_eq_some.mp right
    have index := paged.sameIndex d k d' k' f w w' left right
    -- only the first directory entry of a slot is present
    have first : ∀ d k w, m.look (d, k) = some (f, w) → d.val % 16 = 0 := by
      intro d k w mapped
      obtain ⟨t, table, _⟩ := Memory.look_eq_some.mp mapped
      obtain ⟨user, present, _⟩ := Memory.dirTarget_eq_some.mp table
      exact (paged.dirs d (by omega) present).2.1
    have left_first := first d k w left
    have right_first := first d' k' w' right
    have slots : d.val / 16 = d'.val / 16 := congrArg Fin.val slot
    have same : d = d' := Fin.ext (by omega)
    rw [same, index]

/-- The counts of main memory stay far from the limits of 8 bits. -/
theorem memMap_le (paged : Paged m pages) {f : Nat} (main : Main f) :
    0 ≤ (m.memMap f).toInt ∧ (m.memMap f).toInt ≤ 64 := by
  have exact := paged.sound.exact f main
  have few := paged.mappings_le f
  have exclusive := paged.sound.exclusive f main
  simp only [Memory.mappings] at few
  omega

/-! ### Elementary updates -/

/-- The words of a frame that is no table may become anything. -/
theorem scribble (paged : Paged m pages) {f : Nat} (main : Main f) (unused : m.tables f = 0)
    (words : Nat → BitVec 32) :
    let m' := { m with page := Function.update m.page f words }
    Paged m' pages ∧ m'.look = m.look ∧ m'.dirTarget = m.dirTarget := by
  intro m'
  have low : ∀ g < 2048, m'.page g = m.page g := by
    intro g small
    have apart : g ≠ f := by
      have := main.1
      omega
    exact Function.update_of_ne apart _ _
  have dirs : m'.dirTarget = m.dirTarget := by
    funext d
    unfold Memory.dirTarget
    rw [low 0 (by omega)]
  -- the frame is no table, so no entry is read from it
  have looks : m'.look = m.look := by
    apply Memory.look_congr dirs
    intro d t table
    have apart : t ≠ f := by
      rintro rfl
      exact Sharing.count_eq_zero.mp unused d table
    exact Function.update_of_ne apart _ _
  refine ⟨?_, looks, dirs⟩
  constructor
  · intro d small
    rw [low 0 (by omega)]
    exact paged.identityDir d small
  · intro d small k small'
    rw [low (d + 1) (by omega)]
    exact paged.identity d small k small'
  · intro d high present
    rw [low 0 (by omega)] at present ⊢
    exact paged.dirs d high present
  · rw [looks]
    exact paged.entries
  · rw [looks]
    exact paged.sameIndex
  · exact paged.reserved
  · have sameTables : m'.tables = m.tables := by
      funext g
      rw [Memory.tables, dirs, Memory.tables]
    rw [looks, sameTables]
    exact paged.sound

theorem look_setEntry (paged : Paged m pages) {d : Fin 1024} {t : Nat}
    (table : m.dirTarget d = some t) (k : Fin 1024) (v : BitVec 32) :
    (m.setEntry t k v).dirTarget = m.dirTarget ∧
      (m.setEntry t k v).look = Function.update m.look (d, k) (decode v) := by
  have dirs := m.dirTarget_setEntry (paged.table_ne_zero table) k v
  refine ⟨dirs, ?_⟩
  funext x
  obtain ⟨d', k'⟩ := x
  -- no two directory entries have the same table
  by_cases here : d' = d
  · subst here
    rw [Memory.look_of_dirTarget (dirs ▸ table)]
    by_cases index : k' = k
    · subst index
      simp [Memory.setEntry]
    · have apart : (d', k') ≠ (d', k) := by simp [index]
      have apart' : k'.val ≠ k.val := fun same => index (Fin.ext same)
      rw [Function.update_of_ne apart, Memory.look_of_dirTarget table]
      simp [Memory.setEntry, apart']
  · have apart : (d', k') ≠ (d, k) := by simp [here]
    rw [Function.update_of_ne apart]
    unfold Memory.look
    rw [dirs]
    cases table' : m.dirTarget d' with
    | none => rfl
    | some t' =>
      have other : t' ≠ t := by
        rintro rfl
        exact here (paged.table_unique table' table)
      simp [Memory.setEntry, other]

/-- One second-level entry is set, and the counts follow it. -/
theorem setEntry (paged : Paged m pages) {d : Fin 1024} {t : Nat} (table : m.dirTarget d = some t)
    (k : Fin 1024) (v : BitVec 32) (memMap : Nat → BitVec 8)
    (entry : ∀ f w, decode v = some (f, w) → k.val < 160 ∧ (Main f ∨ f = k.val ∧ w = false))
    (index : ∀ f w, decode v = some (f, w) → ∀ d' k' w', m.look (d', k') = some (f, w') → k = k')
    (reserved : ∀ f < 2048, memMap f = 100)
    (counts : ∀ f, Main f → (memMap f).toInt +
        (if (m.look (d, k)).map Prod.fst = some f then 1 else 0) =
      (m.memMap f).toInt + (if (decode v).map Prod.fst = some f then 1 else 0))
    (apart : ∀ f w, decode v = some (f, w) → Main f → m.tables f = 0 ∧ pages f = 0)
    (protect : ∀ f w, decode v = some (f, w) → Main f → ∀ i, i ≠ (d, k) → ∀ w',
      m.look i = some (f, w') → w = false ∧ w' = false) :
    Paged { m.setEntry t k v with memMap } pages := by
  obtain ⟨dirs, looks⟩ := paged.look_setEntry table k v
  have main := paged.main_of_dirTarget table
  have low : ∀ g < 2048, (m.setEntry t k v).page g = m.page g := by
    intro g small
    have other : g ≠ t := by
      have := main.1
      omega
    exact Function.update_of_ne other _ _
  -- an entry of the new tables is the new one or an old one
  have cases_look : ∀ i f w, Function.update m.look (d, k) (decode v) i = some (f, w) →
      i = (d, k) ∧ decode v = some (f, w) ∨ i ≠ (d, k) ∧ m.look i = some (f, w) := by
    intro i f w found
    by_cases here : i = (d, k)
    · subst here
      rw [Function.update_self] at found
      exact Or.inl ⟨rfl, found⟩
    · rw [Function.update_of_ne here] at found
      exact Or.inr ⟨here, found⟩
  constructor
  · intro d' small
    exact (congrFun (low 0 (by omega)) d').trans (paged.identityDir d' small)
  · intro d' small k' small'
    exact (congrFun (low (d' + 1) (by omega)) k').trans (paged.identity d' small k' small')
  · intro d' high present
    have same := congrFun (low 0 (by omega)) d'.val
    change Present ((m.setEntry t k v).page 0 d') at present
    change _ ∧ _ ∧ Writable ((m.setEntry t k v).page 0 d') ∧ Main (frame ((m.setEntry t k v).page 0 d'))
    rw [same] at present ⊢
    exact paged.dirs d' high present
  · intro d' k' f w found
    change (m.setEntry t k v).look (d', k') = some (f, w) at found
    rw [looks] at found
    rcases cases_look _ _ _ found with ⟨same, new⟩ | ⟨_, old⟩
    · cases same
      exact entry f w new
    · exact paged.entries d' k' f w old
  · intro d₁ k₁ d₂ k₂ f w₁ w₂ left right
    change (m.setEntry t k v).look _ = _ at left right
    rw [looks] at left right
    rcases cases_look _ _ _ left with ⟨same, new⟩ | ⟨_, old⟩
    · cases same
      rcases cases_look _ _ _ right with ⟨same', _⟩ | ⟨_, old'⟩
      · cases same'
        rfl
      · exact index f w₁ new d₂ k₂ w₂ old'
    · rcases cases_look _ _ _ right with ⟨same', new'⟩ | ⟨_, old'⟩
      · cases same'
        exact (index f w₂ new' d₁ k₁ w₁ old).symm
      · exact paged.sameIndex d₁ k₁ d₂ k₂ f w₁ w₂ old old'
  · exact reserved
  · have sameTables : (fun f => Memory.tables { m.setEntry t k v with memMap } f + pages f) =
        fun f => m.tables f + pages f := by
      funext f
      change Sharing.count (m.setEntry t k v).dirTarget f + pages f = _
      rw [dirs]
      rfl
    rw [sameTables]
    change Sharing.Sound Main (m.setEntry t k v).look _ _
    rw [looks]
    apply paged.sound.set (d, k) (decode v) counts
    · intro f w new own
      have := apart f w new own
      omega
    · exact protect
    · intro f new
      rcases (entry f true new).2 with own | ⟨_, readOnly⟩
      · exact own
      · cases readOnly

end Paged

end OperatorSystem.Mm
