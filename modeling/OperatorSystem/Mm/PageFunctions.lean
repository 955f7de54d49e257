import OperatorSystem.Mm.Paging

/-!
# What the page functions do under the paging invariant

One lemma for each function of `memory.c` that the kernel reaches, on memory
that satisfies `Paged`: which pages come out of it, that the invariant holds
again, and which words it leaves alone.
-/

namespace OperatorSystem.Mm

/-- Two entries map the same frame, or neither is present. -/
def SameFrame (e e' : BitVec 32) : Prop := (Present e ↔ Present e') ∧ (Present e → frame e = frame e')

theorem SameFrame.rfl {e : BitVec 32} : SameFrame e e := ⟨Iff.rfl, fun _ => Eq.refl _⟩

theorem SameFrame.trans {e₁ e₂ e₃ : BitVec 32} (left : SameFrame e₁ e₂) (right : SameFrame e₂ e₃) :
    SameFrame e₁ e₃ := by
  refine ⟨left.1.trans right.1, ?_⟩
  intro present
  exact (left.2 present).trans (right.2 (left.1.mp present))

theorem SameFrame.symm {e e' : BitVec 32} (same : SameFrame e e') : SameFrame e' e := by
  refine ⟨same.1.symm, ?_⟩
  intro present
  exact (same.2 (same.1.mpr present)).symm

theorem sameFrame_protect (e : BitVec 32) : SameFrame e (e &&& ~~~ pgRww) :=
  ⟨(present_protect e).symm, fun _ => (frame_protect e).symm⟩

theorem Memory.setEntry_comm (m : Memory) {f g : Nat} (apart : f ≠ g) (k l : Nat) (v w : BitVec 32) :
    (m.setEntry f k v).setEntry g l w = (m.setEntry g l w).setEntry f k v := by
  simp only [Memory.setEntry, Function.update_of_ne apart, Function.update_of_ne apart.symm]
  rw [Function.update_comm apart]

theorem Memory.setEntry_page (m : Memory) (f k : Nat) (v : BitVec 32) (g l : Nat) :
    (m.setEntry f k v).page g l = if g = f ∧ l = k then v else m.page g l := by
  by_cases here : g = f
  · subst here
    by_cases index : l = k
    · subst index
      simp [Memory.setEntry]
    · simp [Memory.setEntry, index]
  · simp [Memory.setEntry, here]

/-- What `copyPageTables` may copy from: the table of another task, or the
identity table below 640 KB. -/
def Source (m : Memory) (d : Fin 1024) (fromTable k : Nat) : Prop :=
  (∃ d₀, d₀ ≠ d ∧ m.dirTarget d₀ = some fromTable) ∨ fromTable = 1 ∧ k < 160

/-- The entries `lo..hi` of a table have been copied from another one. -/
structure Copied (m m' : Memory) (fromTable t lo hi : Nat) : Prop where
  dirs : m'.dirTarget = m.dirTarget
  copy : ∀ l, lo ≤ l → l < hi → SameFrame (m'.page fromTable l) (m'.page t l)
  source : ∀ l, SameFrame (m.page fromTable l) (m'.page fromTable l)
  rest : ∀ g l, g ≠ fromTable → (g = t → l < lo ∨ hi ≤ l) → m'.page g l = m.page g l

theorem Copied.refl (m : Memory) (fromTable t lo : Nat) : Copied m m fromTable t lo lo := by
  constructor
  · exact Eq.refl _
  · intro l low high
    omega
  · exact fun l => SameFrame.rfl
  · exact fun g l _ _ => Eq.refl _

theorem Copied.trans {m₁ m₂ m₃ : Memory} {fromTable t lo mid hi : Nat} (apart : fromTable ≠ t)
    (left : Copied m₁ m₂ fromTable t lo mid) (right : Copied m₂ m₃ fromTable t mid hi)
    (first : lo ≤ mid) (second : mid ≤ hi) : Copied m₁ m₃ fromTable t lo hi := by
  constructor
  · exact right.dirs.trans left.dirs
  · intro l low high
    by_cases here : l < mid
    · -- the second part leaves the copy alone, and the frame of its original
      rw [right.rest t l apart.symm fun _ => Or.inl here]
      exact (right.source l).symm.trans (left.copy l low here)
    · exact right.copy l (by omega) high
  · exact fun l => (left.source l).trans (right.source l)
  · intro g l other outside
    rw [right.rest g l other fun same => by have := outside same; omega]
    exact left.rest g l other fun same => by have := outside same; omega

/-- Entry `k` of table `t` maps the frame `f` alone, with the words its frame had. -/
structure Unshared (m m' : Memory) (t k f : Nat) : Prop where
  main : Main f
  entry : Present (m'.page t k) ∧ Writable (m'.page t k) ∧ frame (m'.page t k) = f
  content : m'.page f = m.page (frame (m.page t k))
  fresh : f = frame (m.page t k) ∨ m.mappings f = 0 ∧ m.tables f = 0
  rest : ∀ g l, g ≠ f → (g = t → l ≠ k) → m'.page g l = m.page g l

/-! ### Counts of 8 bits -/

theorem toInt_succ {n : BitVec 8} (low : 0 ≤ n.toInt) (high : n.toInt ≤ 64) :
    (n + 1).toInt = n.toInt + 1 := by
  have one : (1 : BitVec 8).toInt = 1 := by decide
  rw [BitVec.toInt_add, one, Int.bmod_def]
  omega

theorem toInt_pred {n : BitVec 8} (low : 0 ≤ n.toInt) (high : n.toInt ≤ 64) :
    (n - 1).toInt = n.toInt - 1 := by
  have one : (1 : BitVec 8).toInt = 1 := by decide
  rw [BitVec.toInt_sub, one, Int.bmod_def]
  omega

theorem toInt_eq_zero {n : BitVec 8} : n.toInt = 0 ↔ n = 0 := by
  constructor
  · intro zero
    exact BitVec.eq_of_toInt_eq zero
  · rintro rfl
    decide

theorem Main.small {f : Nat} (main : Main f) : f < 2 ^ 20 := by
  have := main.2
  simp only [pagesSize] at this
  omega

/-! ### `getFreePage` and `freePage` -/

theorem Memory.getFreePage_cases (m : Memory) :
    (m.getFreePage = (m, 0) ∧ ∀ f < pagesSize, m.memMap f ≠ 0) ∨
      ∃ f < pagesSize, m.memMap f = 0 ∧ m.getFreePage = (m.claimPage f, pageAddr f) := by
  unfold Memory.getFreePage
  split
  next full =>
    left
    refine ⟨rfl, ?_⟩
    intro f small
    simpa using List.find?_eq_none.mp full f (List.mem_range.mpr small)
  next f found =>
    right
    exact ⟨f, List.mem_range.mp (List.mem_of_find?_eq_some found),
      by simpa using List.find?_some found, rfl⟩

/-- `getFreePage` fails only when all counts are in use. -/
theorem Memory.used_of_getFreePage {m : Memory} (full : m.getFreePage = (m, 0)) :
    ∀ f < pagesSize, m.memMap f ≠ 0 := by
  rcases m.getFreePage_cases with ⟨_, used⟩ | ⟨f, small, zero, found⟩
  · exact used
  · rw [found] at full
    have page := congrArg (fun m => m.memMap f) (congrArg Prod.fst full)
    simp [claimPage, zero] at page

/-- `freePage` on a page that is counted once. -/
theorem Memory.freePage_pageAddr {m : Memory} {f : Nat} (main : Main f) (one : m.memMap f = 1) :
    m.freePage (pageAddr f) = some (m.setCount f 0) := by
  have addr := toNat_pageAddr main.small
  have kernel : ¬ pageAddr f < kernelMem := by
    rw [BitVec.lt_def, addr]
    change ¬ _ < 0x100000
    have := main.1
    omega
  have inside : ¬ pageAddr f ≥ memSize := by
    rw [ge_iff_le, BitVec.le_def, addr]
    change ¬ 0x2000000 ≤ _
    have := main.2
    simp only [pagesSize] at this
    omega
  simp [freePage, kernel, inside, frame_pageAddr main.small, one]

namespace Paged

variable {m : Memory} {pages : Nat → Nat}

/-- The counts and the uses outside the tables change together. -/
theorem recount {pages' : Nat → Nat} (paged : Paged m pages) (memMap : Nat → BitVec 8)
    (reserved : ∀ f < 2048, memMap f = 100)
    (sound : Sharing.Sound Main m.look (fun f => m.tables f + pages' f) fun f => (memMap f).toInt) :
    Paged { m with memMap } pages' :=
  ⟨paged.identityDir, paged.identity, paged.dirs, paged.entries, paged.sameIndex, reserved, sound⟩

/-- A frame whose count is 0 is used nowhere; claimed, it counts as one of `pages`. -/
theorem claimPage (paged : Paged m pages) {f : Nat} (main : Main f) (free : m.memMap f = 0) :
    (m.mappings f = 0 ∧ m.tables f = 0 ∧ pages f = 0) ∧
      Paged (m.claimPage f) (Function.update pages f 1) ∧
      (m.claimPage f).look = m.look ∧ (m.claimPage f).dirTarget = m.dirTarget := by
  have zero : (m.memMap f).toInt = 0 := toInt_eq_zero.mpr free
  obtain ⟨unmapped, unused⟩ := paged.sound.unused main zero
  have clear : m.tables f = 0 ∧ pages f = 0 := by omega
  refine ⟨⟨unmapped, clear⟩, ?_⟩
  -- a page that nobody uses may be overwritten; then it is counted for the caller
  obtain ⟨cleared, looks, dirs⟩ := paged.scribble main clear.1 fun _ => 0
  refine ⟨?_, looks, dirs⟩
  apply cleared.recount
  · intro g small
    have apart : g ≠ f := by
      have := main.1
      omega
    rw [Function.update_of_ne apart]
    exact paged.reserved g small
  · have sameTables : Memory.tables { m with page := Function.update m.page f fun _ => 0 } =
        m.tables := by
      funext g
      rw [Memory.tables, dirs, Memory.tables]
    -- the uses and the counts change for this page alone
    have others : Function.update (fun g => m.tables g + pages g) f 1 =
        fun g => m.tables g + Function.update pages f 1 g := by
      funext g
      by_cases here : g = f
      · subst here
        simp [clear]
      · simp [here]
    have counts : Function.update (fun g => (m.memMap g).toInt) f 1 =
        fun g => (Function.update m.memMap f 1 g).toInt := by
      funext g
      by_cases here : g = f
      · subst here
        simp
      · simp [here]
    have held := paged.sound.hold main zero
    rw [others, counts] at held
    rw [looks, sameTables]
    exact held

/-- `getFreePage` fails, or returns a cleared frame of main memory that nothing used. -/
theorem getFreePage (paged : Paged m pages) :
    m.getFreePage = (m, 0) ∨
      ∃ f, Main f ∧ (m.mappings f = 0 ∧ m.tables f = 0 ∧ pages f = 0) ∧
        m.getFreePage = (m.claimPage f, pageAddr f) ∧ pageAddr f ≠ 0 ∧
        Paged (m.claimPage f) (Function.update pages f 1) ∧
        (m.claimPage f).look = m.look ∧ (m.claimPage f).dirTarget = m.dirTarget := by
  rcases m.getFreePage_cases with ⟨failed, _⟩ | ⟨f, small, free, found⟩
  · exact Or.inl failed
  · right
    have main : Main f := by
      refine ⟨?_, small⟩
      by_contra below
      have := paged.reserved f (by omega)
      rw [free] at this
      exact absurd this (by decide)
    have nonzero : pageAddr f ≠ 0 := pageAddr_ne_zero main.small (by have := main.1; omega)
    obtain ⟨unused, claimed⟩ := paged.claimPage main free
    exact ⟨f, main, unused, found, nonzero, claimed⟩

/-- `freePage` on a page that is in use outside the tables. -/
theorem freePage {f : Nat} (paged : Paged m (Function.update pages f 1)) (main : Main f)
    (unused : pages f = 0) :
    m.freePage (pageAddr f) = some (m.setCount f 0) ∧ Paged (m.setCount f 0) pages := by
  -- the caller has the page for itself, so its count is one
  obtain ⟨unmapped, once⟩ := paged.sound.exclusive f main (by simp)
  have clear : m.tables f = 0 := by
    rw [Function.update_self] at once
    omega
  have count : (m.memMap f).toInt = 1 := by
    rw [paged.sound.exact f main, unmapped, once]
    rfl
  have one : m.memMap f = 1 := BitVec.eq_of_toInt_eq count
  constructor
  · exact Memory.freePage_pageAddr main one
  · apply paged.recount
    · intro g small
      have apart : g ≠ f := by
        have := main.1
        omega
      rw [Function.update_of_ne apart]
      exact paged.reserved g small
    · -- the last use is given back
      have released := paged.sound.release main once
      have others : Function.update (fun g => m.tables g + Function.update pages f 1 g) f 0 =
          fun g => m.tables g + pages g := by
        funext g
        by_cases here : g = f
        · subst here
          simp [clear, unused]
        · simp [here]
      have counts : Function.update (fun g => (m.memMap g).toInt) f ((m.memMap f).toInt - 1) =
          fun g => (Function.update m.memMap f 0 g).toInt := by
        funext g
        by_cases here : g = f
        · subst here
          simp [count]
        · simp [here]
      rw [others, counts] at released
      exact released

/-! ### `copyPageTables` -/

/-- A cleared page becomes the table behind an absent directory entry. -/
theorem linkTable {f : Nat} (paged : Paged m (Function.update pages f 1)) (main : Main f)
    (unused : pages f = 0) (cleared : ∀ k, m.page f k = 0) {d : Fin 1024} (slot : d.val % 16 = 0)
    (user : 16 ≤ d.val) (absent : ¬ Present (m.page 0 d)) :
    Paged (m.setEntry 0 d (freshEntry f)) pages ∧
      (m.setEntry 0 d (freshEntry f)).dirTarget = Function.update m.dirTarget d (some f) ∧
      (m.setEntry 0 d (freshEntry f)).look = m.look := by
  have dirEntry : (m.setEntry 0 d (freshEntry f)).page 0 = Function.update (m.page 0) d (freshEntry f) := by
    simp [Memory.setEntry]
  have others : ∀ g, g ≠ 0 → (m.setEntry 0 d (freshEntry f)).page g = m.page g := by
    intro g nonzero
    simp [Memory.setEntry, nonzero]
  have dirs : (m.setEntry 0 d (freshEntry f)).dirTarget = Function.update m.dirTarget d (some f) := by
    funext d'
    by_cases here : d' = d
    · subst here
      rw [Function.update_self, Memory.dirTarget_eq_some, dirEntry, Function.update_self]
      exact ⟨user, present_freshEntry f, frame_freshEntry main.small⟩
    · have apart : d'.val ≠ d.val := fun same => here (Fin.ext same)
      rw [Function.update_of_ne here]
      simp only [Memory.dirTarget, dirEntry, Function.update_of_ne apart]
  have before : m.dirTarget d = none := by
    simp [Memory.dirTarget, absent]
  -- an empty table adds no mapping
  have looks : (m.setEntry 0 d (freshEntry f)).look = m.look := by
    funext x
    obtain ⟨d', k⟩ := x
    by_cases here : d' = d
    · subst here
      have table : (m.setEntry 0 d' (freshEntry f)).dirTarget d' = some f := by
        rw [dirs, Function.update_self]
      have nonzero : f ≠ 0 := by
        have := main.1
        omega
      rw [Memory.look_of_dirTarget table, others f nonzero, cleared]
      simp only [Memory.look, before]
      decide
    · simp only [Memory.look, dirs, Function.update_of_ne here]
      cases table : m.dirTarget d' with
      | none => rfl
      | some t =>
        have nonzero : t ≠ 0 := by
          have := (paged.main_of_dirTarget table).1
          omega
        simp only [others t nonzero]
  refine ⟨?_, dirs, looks⟩
  constructor
  · intro d' small
    rw [dirEntry, Function.update_of_ne (by omega)]
    exact paged.identityDir d' small
  · intro d' small k small'
    rw [others (d' + 1) (by omega)]
    exact paged.identity d' small k small'
  · intro d' high present
    by_cases here : d' = d
    · subst here
      rw [dirEntry, Function.update_self, frame_freshEntry main.small]
      exact ⟨user, slot, writable_freshEntry f, main⟩
    · have apart : d'.val ≠ d.val := fun same => here (Fin.ext same)
      rw [dirEntry, Function.update_of_ne apart] at present ⊢
      exact paged.dirs d' high present
  · rw [looks]
    exact paged.entries
  · rw [looks]
    exact paged.sameIndex
  · exact paged.reserved
  · -- the page was counted once among `pages` and is now counted once as a table
    have uses : (fun g => (m.setEntry 0 d (freshEntry f)).tables g + pages g) =
        fun g => m.tables g + Function.update pages f 1 g := by
      funext g
      have moved := Sharing.count_update m.dirTarget d (some f) g
      rw [before, if_neg (by simp), Nat.add_zero] at moved
      rw [Memory.tables, dirs, moved]
      by_cases here : g = f
      · subst here
        simp [Memory.tables, unused]
      · have apart : f ≠ g := fun same => here same.symm
        simp [Memory.tables, here, apart]
    rw [looks, uses]
    exact paged.sound

theorem Source.frame_cases (paged : Paged m pages) {d k : Fin 1024} {fromTable : Nat}
    (source : Source m d fromTable k) (present : Present (m.page fromTable k)) :
    k.val < 160 ∧ ((∃ d₀, d₀ ≠ d ∧ m.dirTarget d₀ = some fromTable ∧
        Main (frame (m.page fromTable k))) ∨ frame (m.page fromTable k) = k.val) := by
  rcases source with ⟨d₀, other, table⟩ | ⟨rfl, small⟩
  · have mapped : m.look (d₀, k) =
        some (frame (m.page fromTable k), decide (Writable (m.page fromTable k))) := by
      rw [Memory.look_of_dirTarget table, decode_eq_some]
      exact ⟨present, rfl, rfl⟩
    obtain ⟨small, own | ⟨low, _⟩⟩ := paged.entries d₀ k _ _ mapped
    · exact ⟨small, Or.inl ⟨d₀, other, table, own⟩⟩
    · exact ⟨small, Or.inr low⟩
  · refine ⟨small, Or.inr ?_⟩
    have entry := paged.identity 0 (by omega) k.val (by omega)
    simp only [Nat.zero_add, Nat.mul_zero] at entry
    rw [entry, frame_freshEntry (by omega)]

/-- A frame of main memory shared by a copied entry: both entries become
read-only and the count grows by one. -/
theorem shareEntry (paged : Paged m pages) {d d₀ k : Fin 1024} {t fromTable : Nat}
    (table : m.dirTarget d = some t) (other : d₀ ≠ d) (source : m.dirTarget d₀ = some fromTable)
    (empty : ¬ Present (m.page t k)) (present : Present (m.page fromTable k))
    (main : Main (frame (m.page fromTable k))) (small : k.val < 160) :
    let v := m.page fromTable k &&& ~~~ pgRww
    Paged (((m.setEntry t k v).setEntry fromTable k v).setCount (frame v) (m.memMap (frame v) + 1))
      pages := by
  intro v
  have tables_apart : t ≠ fromTable := by
    rintro rfl
    exact other (paged.table_unique source table)
  have mapped : m.look (d₀, k) =
      some (frame v, decide (Writable (m.page fromTable k))) := by
    rw [Memory.look_of_dirTarget source, decode_eq_some]
    exact ⟨present, (frame_protect _).symm, rfl⟩
  have decoded : decode v = some (frame v, false) := by
    rw [decode_eq_some]
    exact ⟨(present_protect _).mpr present, rfl, by simp [v]⟩
  have own : Main (frame v) := by
    rw [frame_protect]
    exact main
  -- first the entry copied from loses its write permission
  have guarded : Paged (m.setEntry fromTable k v) pages := by
    apply paged.setEntry source k v m.memMap
    · intro f w new
      rw [decoded] at new
      cases new
      exact ⟨small, Or.inl own⟩
    · intro f w new d' k' w' found
      rw [decoded] at new
      cases new
      exact paged.sameIndex d₀ k d' k' _ _ w' mapped found
    · exact paged.reserved
    · intro f _
      rw [mapped, decoded]
      simp
    · intro f w new main
      rw [decoded] at new
      cases new
      exact paged.mapped_exclusive mapped main
    · intro f w new _ i elsewhere w' found
      rw [decoded] at new
      cases new
      refine ⟨rfl, ?_⟩
      cases w' with
      | false => rfl
      | true => exact absurd (paged.sound.unique found mapped).symm elsewhere
  obtain ⟨dirs, looks⟩ := paged.look_setEntry source k v
  have table' : (m.setEntry fromTable k v).dirTarget d = some t := by
    rw [dirs]
    exact table
  have mapped' : (m.setEntry fromTable k v).look (d₀, k) = some (frame v, false) := by
    rw [looks, Function.update_self, decoded]
  have absent : (m.setEntry fromTable k v).look (d, k) = none := by
    have apart : (d, k) ≠ (d₀, k) := by simp [other.symm]
    rw [looks, Function.update_of_ne apart, Memory.look_of_dirTarget table, decode_eq_none]
    exact empty
  -- then the new entry joins the entries of the frame, all of them read-only
  rw [m.setEntry_comm tables_apart]
  apply guarded.setEntry table' k v
  · intro f w new
    rw [decoded] at new
    cases new
    exact ⟨small, Or.inl own⟩
  · intro f w new d' k' w' found
    rw [decoded] at new
    cases new
    exact guarded.sameIndex d₀ k d' k' _ _ w' mapped' found
  · intro f low
    have apart : f ≠ frame v := by
      have := own.1
      omega
    rw [Function.update_of_ne apart]
    exact paged.reserved f low
  · intro f main
    rw [absent, decoded]
    by_cases here : f = frame v
    · subst here
      obtain ⟨low, high⟩ := paged.memMap_le main
      simp only [Function.update_self, toInt_succ low high, Memory.setEntry]
      simp
    · have apart : frame v ≠ f := fun same => here same.symm
      simp [here, apart, Memory.setEntry]
  · intro f w new main
    rw [decoded] at new
    cases new
    exact guarded.mapped_exclusive mapped' main
  · intro f w new _ i _ w' found
    rw [decoded] at new
    cases new
    refine ⟨rfl, ?_⟩
    cases w' with
    | false => rfl
    | true =>
      have same := guarded.sound.unique found mapped'
      rw [← same, mapped'] at found
      cases found

/-- A frame below 1 MB shared by a copied entry: only the new entry changes. -/
theorem aliasEntry (paged : Paged m pages) {d k : Fin 1024} {t : Nat} {v : BitVec 32}
    (table : m.dirTarget d = some t) (empty : ¬ Present (m.page t k)) (small : k.val < 160)
    (low : frame v = k.val) (readOnly : ¬ Writable v) : Paged (m.setEntry t k v) pages := by
  have absent : m.look (d, k) = none := by
    rw [Memory.look_of_dirTarget table, decode_eq_none]
    exact empty
  have decoded : ∀ f w, decode v = some (f, w) → f = k.val ∧ w = false := by
    intro f w new
    obtain ⟨_, rfl, rfl⟩ := decode_eq_some.mp new
    exact ⟨low, by simp [readOnly]⟩
  -- the frame is one of the kernel's, which is not counted
  have notMain : ∀ f w, decode v = some (f, w) → ¬ Main f := by
    intro f w new main
    have := (decoded f w new).1
    have := main.1
    omega
  apply paged.setEntry table k v m.memMap
  · intro f w new
    exact ⟨small, Or.inr (decoded f w new)⟩
  · intro f w new d' k' w' found
    have here := (decoded f w new).1
    rcases (paged.entries d' k' f w' found).2 with main | ⟨there, _⟩
    · exact absurd main (notMain f w new)
    · exact Fin.ext (here.symm.trans there)
  · exact paged.reserved
  · intro f main
    have elsewhere : (decode v).map Prod.fst ≠ some f := by
      intro here
      obtain ⟨w, new⟩ := Sharing.map_fst_eq_some.mp here
      exact notMain f w new main
    simp [absent, elsewhere]
  · intro f w new main
    exact absurd main (notMain f w new)
  · intro f w new main
    exact absurd main (notMain f w new)

theorem Source.apart (paged : Paged m pages) {d : Fin 1024} {t fromTable k : Nat}
    (table : m.dirTarget d = some t) (source : Source m d fromTable k) : fromTable ≠ t := by
  rcases source with ⟨d₀, other, table₀⟩ | ⟨rfl, _⟩
  · rintro rfl
    exact other (paged.table_unique table₀ table)
  · have := (paged.main_of_dirTarget table).1
    omega

theorem copyEntry (paged : Paged m pages) {d k : Fin 1024} {t fromTable : Nat}
    (table : m.dirTarget d = some t) (source : Source m d fromTable k)
    (empty : ¬ Present (m.page t k)) :
    Paged (m.copyEntry fromTable t k) pages ∧
      Copied m (m.copyEntry fromTable t k) fromTable t k (k + 1) := by
  have apart := Source.apart paged table source
  unfold Memory.copyEntry
  dsimp only
  split
  -- nothing is copied, and the entry was empty
  next absent =>
    refine ⟨paged, ?_⟩
    constructor
    · exact Eq.refl _
    · intro l low high
      obtain rfl : l = k.val := by omega
      exact ⟨by simp [absent, empty], fun present => absurd present absent⟩
    · exact fun l => SameFrame.rfl
    · exact fun g l _ _ => Eq.refl _
  next present =>
    rw [not_not] at present
    have small := Source.frame_cases paged source present
    have above := gt_kernelMem_iff ((present_protect _).mpr present)
    rw [frame_protect] at above
    split
    -- a frame above `KERNEL_MEM` is shared: both entries lose the write bit, and it is counted
    next kernel =>
      rcases small with ⟨small, ⟨d₀, other, table₀, main⟩ | low⟩
      · refine ⟨paged.shareEntry table other table₀ empty present main small, ?_⟩
        constructor
        · exact (Memory.dirTarget_setEntry _ (paged.table_ne_zero table₀) k _).trans
            (m.dirTarget_setEntry (paged.table_ne_zero table) k _)
        · intro l low high
          obtain rfl : l = k.val := by omega
          simp [Memory.setCount, Memory.setEntry_page, apart.symm, SameFrame.rfl]
        · intro l
          simp only [Memory.setCount, Memory.setEntry_page, apart, false_and, if_false, true_and]
          split
          next here =>
            rw [here]
            exact sameFrame_protect _
          · exact SameFrame.rfl
        · intro g l other outside
          have elsewhere : ¬ (g = t ∧ l = k.val) := by
            rintro ⟨here, rfl⟩
            have := outside here
            omega
          simp [Memory.setCount, Memory.setEntry_page, other, elsewhere]
      · have := above.mp kernel
        omega
    -- a frame of the kernel is mapped a second time, without a count
    next user =>
      rcases small with ⟨small, ⟨d₀, other, table₀, main⟩ | low⟩
      · have := main.1
        exact absurd (above.mpr (by omega)) user
      · refine ⟨paged.aliasEntry table empty small ((frame_protect _).trans low)
          (not_writable_protect _), ?_⟩
        constructor
        · exact m.dirTarget_setEntry (paged.table_ne_zero table) k _
        · intro l low high
          obtain rfl : l = k.val := by omega
          simp only [Memory.setEntry_page, apart, false_and, if_false, true_and, if_true]
          exact sameFrame_protect _
        · intro l
          simp only [Memory.setEntry_page, apart, false_and, if_false]
          exact SameFrame.rfl
        · intro g l other outside
          have elsewhere : ¬ (g = t ∧ l = k.val) := by
            rintro ⟨here, rfl⟩
            have := outside here
            omega
          simp [Memory.setEntry_page, elsewhere]

/-- The inner loop of `copyPageTables`, by induction on the number of entries left. -/
theorem copyEntries {d : Fin 1024} {t fromTable cnt : Nat} :
    ∀ {m : Memory} {k : Nat}, Paged m pages → m.dirTarget d = some t → k + cnt ≤ 1024 →
      fromTable ≠ t → (∀ l, k ≤ l → l < k + cnt → Source m d fromTable l) →
      (∀ l, k ≤ l → l < k + cnt → ¬ Present (m.page t l)) →
      Paged (m.copyEntries fromTable t cnt k) pages ∧
        Copied m (m.copyEntries fromTable t cnt k) fromTable t k (k + cnt) := by
  -- the induction is on the entries that are left; the next one is still empty and has its source
  induction cnt with
  | zero =>
    intro m k paged table _ _ _ _
    exact ⟨paged, Copied.refl m fromTable t k⟩
  | succ cnt ih =>
    intro m k paged table fits apart source empty
    have index : k < 1024 := by omega
    obtain ⟨paged₁, copied⟩ := paged.copyEntry (k := ⟨k, index⟩) table
      (source k (by omega) (by omega)) (empty k (by omega) (by omega))
    have table₁ : (m.copyEntry fromTable t k).dirTarget d = some t := by
      rw [copied.dirs]
      exact table
    have rest := ih (k := k + 1) paged₁ table₁ (by omega) apart ?_ ?_
    · refine ⟨rest.1, ?_⟩
      have whole := Copied.trans apart copied rest.2 (Nat.le_succ k) (Nat.le_add_right _ _)
      have ends : k + 1 + cnt = k + (cnt + 1) := by omega
      rw [ends] at whole
      exact whole
    · intro l low high
      rcases source l (by omega) (by omega) with ⟨d₀, other, table₀⟩ | identity
      · left
        exact ⟨d₀, other, by rw [copied.dirs]; exact table₀⟩
      · exact Or.inr identity
    · intro l low high
      rw [copied.rest t l apart.symm fun _ => Or.inr low]
      exact empty l (by omega) (by omega)

/-! ### `unWriteProtectPage` -/

/-- The last entry that maps a frame becomes writable in place. -/
theorem unprotectEntry (paged : Paged m pages) {d k : Fin 1024} {t : Nat}
    (table : m.dirTarget d = some t) (present : Present (m.page t k))
    (main : Main (frame (m.page t k))) (last : m.memMap (frame (m.page t k)) = 1) :
    Paged (m.setEntry t k (m.page t k ||| pgRww)) pages ∧
      Unshared m (m.setEntry t k (m.page t k ||| pgRww)) t k (frame (m.page t k)) := by
  have mapped : m.look (d, k) = some (frame (m.page t k), decide (Writable (m.page t k))) := by
    rw [Memory.look_of_dirTarget table, decode_eq_some]
    exact ⟨present, rfl, rfl⟩
  have decoded : decode (m.page t k ||| pgRww) = some (frame (m.page t k), true) := by
    rw [decode_eq_some]
    exact ⟨(present_unprotect _).mpr present, frame_unprotect _, by simp⟩
  -- the count is one, so this entry is the only one that maps the frame
  have single : m.mappings (frame (m.page t k)) ≤ 1 := by
    have exact := paged.sound.exact _ main
    rw [last] at exact
    have one : (1 : BitVec 8).toInt = 1 := by decide
    rw [Memory.mappings]
    omega
  constructor
  · apply paged.setEntry table k (m.page t k ||| pgRww) m.memMap
    · intro f w new
      rw [decoded] at new
      cases new
      exact ⟨(paged.entries d k _ _ mapped).1, Or.inl main⟩
    · intro f w new d' k' w' found
      rw [decoded] at new
      cases new
      exact paged.sameIndex d k d' k' _ _ w' mapped found
    · exact paged.reserved
    · intro f _
      rw [mapped, decoded]
      simp
    · intro f w new own
      rw [decoded] at new
      cases new
      exact paged.mapped_exclusive mapped own
    · intro f w new _ i elsewhere w' found
      rw [decoded] at new
      cases new
      exact absurd (Sharing.refs_unique single found mapped) elsewhere
  · have apart : frame (m.page t k) ≠ t := by
      intro same
      exact paged.not_table_of_mapped mapped (same ▸ table)
    constructor
    · exact main
    · simp [Memory.setEntry_page, present]
    · funext l
      rw [Memory.setEntry_page, if_neg (by simp [apart])]
    · exact Or.inl rfl
    · intro g l _ elsewhere
      rw [Memory.setEntry_page, if_neg (by rintro ⟨same, index⟩; exact elsewhere same index)]

/-- An entry is moved to a fresh frame that has got the words of the old one. -/
theorem moveEntry (paged : Paged m pages) {d k : Fin 1024} {t f : Nat}
    (table : m.dirTarget d = some t) (present : Present (m.page t k)) (main : Main f)
    (unused : m.mappings f = 0 ∧ m.tables f = 0 ∧ pages f = 0) (memMap : Nat → BitVec 8)
    (claimed : memMap f = 1)
    (dropped : Main (frame (m.page t k)) →
      memMap (frame (m.page t k)) = m.memMap (frame (m.page t k)) - 1)
    (others : ∀ g, g ≠ f → (Main g → g ≠ frame (m.page t k)) → memMap g = m.memMap g) :
    let m' := { m.setEntry t k (freshEntry f) with
      page := Function.update (m.setEntry t k (freshEntry f)).page f (m.page (frame (m.page t k)))
      memMap }
    Paged m' pages ∧ Unshared m m' t k f := by
  intro m'
  have mapped : m.look (d, k) = some (frame (m.page t k), decide (Writable (m.page t k))) := by
    rw [Memory.look_of_dirTarget table, decode_eq_some]
    exact ⟨present, rfl, rfl⟩
  have decoded : decode (freshEntry f) = some (f, true) := by
    rw [decode_eq_some]
    exact ⟨present_freshEntry f, frame_freshEntry main.small, by simp⟩
  -- nobody maps the fresh frame, and the table is another frame
  have unmapped : ∀ i w, m.look i ≠ some (f, w) := by
    intro i w found
    exact Sharing.refs_ne_zero found unused.1
  have moved : frame (m.page t k) ≠ f := by
    intro same
    exact unmapped (d, k) _ (same ▸ mapped)
  have tables_apart : t ≠ f := by
    rintro rfl
    exact Sharing.count_eq_zero.mp unused.2.1 d table
  obtain ⟨filled, looks, dirs⟩ := paged.scribble main unused.2.1 (m.page (frame (m.page t k)))
  have table' : Memory.dirTarget { m with
      page := Function.update m.page f (m.page (frame (m.page t k))) } d = some t := by
    rw [dirs]
    exact table
  have zero : (m.memMap f).toInt = 0 := by
    have exact := paged.sound.exact f main
    have unmapped := unused.1
    simp only [Memory.mappings] at unmapped
    omega
  have result : Paged { Memory.setEntry { m with
      page := Function.update m.page f (m.page (frame (m.page t k))) } t k (freshEntry f) with
      memMap } pages := by
    apply filled.setEntry table' k (freshEntry f)
    · intro g w new
      rw [decoded] at new
      cases new
      exact ⟨(paged.entries d k _ _ mapped).1, Or.inl main⟩
    · intro g w new d' k' w' found
      rw [decoded] at new
      cases new
      rw [looks] at found
      exact absurd found (unmapped _ _)
    · intro g low
      rw [others g (by have := main.1; omega) fun own => by have := own.1; omega]
      exact paged.reserved g low
    · intro g own
      rw [looks, mapped, decoded]
      -- the fresh frame gains the use that the old one loses
      by_cases here : g = f
      · subst here
        simp [claimed, zero, moved]
      · by_cases there : g = frame (m.page t k)
        · subst there
          obtain ⟨low, high⟩ := paged.memMap_le own
          have apart : f ≠ frame (m.page t k) := moved.symm
          rw [dropped own, toInt_pred low high]
          simp [apart]
        · rw [others g here fun _ => there]
          have notOld : frame (m.page t k) ≠ g := fun same => there same.symm
          have notFresh : f ≠ g := fun same => here same.symm
          simp [notOld, notFresh]
    · intro g w new _
      rw [decoded] at new
      cases new
      refine ⟨?_, unused.2.2⟩
      rw [Memory.tables, dirs]
      exact unused.2.1
    · intro g w new _ i _ w' found
      rw [decoded] at new
      cases new
      rw [looks] at found
      exact absurd found (unmapped _ _)
  -- the source stores the entry first and copies the words then
  have commuted : m' = { Memory.setEntry { m with
      page := Function.update m.page f (m.page (frame (m.page t k))) } t k (freshEntry f) with
      memMap } := by
    simp only [m', Memory.setEntry, Function.update_of_ne tables_apart]
    rw [Function.update_comm tables_apart]
  refine ⟨commuted ▸ result, ?_⟩
  constructor
  · exact main
  · simp [m', Memory.setEntry, tables_apart, frame_freshEntry main.small]
  · simp [m']
  · exact Or.inr ⟨unused.1, unused.2.1⟩
  · intro g l notFresh elsewhere
    simp only [m', Function.update_of_ne notFresh]
    rw [Memory.setEntry_page, if_neg (by rintro ⟨same, index⟩; exact elsewhere same index)]

/-- `unWriteProtectPage` on a present entry hangs for want of a page, or gives
the entry a frame of its own. -/
theorem unWriteProtectPage (paged : Paged m pages) {d k : Fin 1024} {t : Nat}
    (table : m.dirTarget d = some t) (present : Present (m.page t k)) :
    (m.unWriteProtectPage t k = none ∧ m.getFreePage = (m, 0)) ∨
      ∃ m' f, m.unWriteProtectPage t k = some m' ∧ Paged m' pages ∧ Unshared m m' t k f := by
  have mapped : m.look (d, k) = some (frame (m.page t k), decide (Writable (m.page t k))) := by
    rw [Memory.look_of_dirTarget table, decode_eq_some]
    exact ⟨present, rfl, rfl⟩
  -- the entries of tasks map pages of main memory or of the kernel, nothing between
  have main_iff : Main (frame (m.page t k)) ↔ pageBase (m.page t k) ≥ kernelMem := by
    rw [pageBase_ge_kernelMem_iff]
    obtain ⟨small, main | ⟨low, _⟩⟩ := paged.entries d k _ _ mapped
    · have := main.1
      exact ⟨fun _ => by omega, fun _ => main⟩
    · refine ⟨fun main => ?_, fun high => ?_⟩
      · have := main.1
        omega
      · omega
  unfold Memory.unWriteProtectPage
  simp only [frame_pageBase]
  split
  next last =>
    right
    obtain ⟨kernel, one⟩ := last
    exact ⟨_, _, rfl, paged.unprotectEntry table present (main_iff.mpr kernel) one⟩
  next =>
    rcases paged.getFreePage with failed | ⟨f, main, unused, found, nonzero, _⟩
    · left
      simp [failed]
    · right
      have moved : frame (m.page t k) ≠ f := by
        intro same
        exact Sharing.refs_ne_zero mapped (same ▸ unused.1)
      have apart : t ≠ f := by
        rintro rfl
        exact Sharing.count_eq_zero.mp unused.2.1 d table
      have notTable : frame (m.page t k) ≠ t := by
        intro same
        exact paged.not_table_of_mapped mapped (same ▸ table)
      have flags : pageAddr f ||| pgUsu ||| pgRww ||| pgP = freshEntry f := by
        simp only [freshEntry, BitVec.or_assoc]
        congr 1
      -- the words are copied and the entry is moved
      have result := paged.moveEntry table present main unused
        (if pageBase (m.page t k) ≥ kernelMem then
          Function.update (m.claimPage f).memMap (frame (m.page t k))
            (m.memMap (frame (m.page t k)) - 1) else (m.claimPage f).memMap) ?_ ?_ ?_
      · refine ⟨_, f, ?_, result⟩
        simp only [found, nonzero, if_false, flags, frame_pageAddr main.small, Option.some.injEq]
        split <;>
          simp [Memory.setEntry, Memory.setCount, Memory.claimPage, apart, moved, notTable,
            Function.update_comm apart]
      · split <;> simp [Memory.claimPage, moved.symm]
      · intro own
        rw [if_pos (main_iff.mp own), Function.update_self]
      · intro g notFresh notOld
        split
        next kernel =>
          have elsewhere : g ≠ frame (m.page t k) := by
            rintro rfl
            exact notOld (main_iff.mpr kernel) rfl
          simp [Memory.claimPage, notFresh, elsewhere]
        · simp [Memory.claimPage, notFresh]

end Paged

end OperatorSystem.Mm
