import OperatorSystem.Library.Preemption
import OperatorSystem.Mm.MainMemory

/-!
# Write faults under preemption (`memory.c`)

`writeProtectPage` statement by statement, for tasks that fault at the same
time. The tasks share `MEM_MAP`; each has an entry of a page table of its own.
The fault starts with interrupts disabled, but `printk` moves the cursor, and
`setCursor` ends with `enableInt`. Between the test of `MEM_MAP[i]` and the
store behind it another task may then find the same page free.
-/

namespace OperatorSystem.Mm

open Preemption

/-- The next statement of `writeProtectPage` and the functions it calls, with the
old page and the page that `getFreePage` tests or has taken. -/
inductive FaultPc
  | printk
  | read
  | test (old : BitVec 32)
  | single
  | search (old : BitVec 32) (i : Nat)
  | take (old : BitVec 32) (i : Nat)
  | clear (old : BitVec 32) (i : Nat)
  | release (old : BitVec 32) (i : Nat)
  | map (i : Nat)
  | copy (i : Nat)
  | done (taken : Option Nat)

/-- A task in `writeProtectPage`, with the page-table entry that it has faulted on. -/
structure Fault where
  pc : FaultPc
  entry : BitVec 32
  /-- the interrupt flag -/
  intr : Bool

namespace Fault

/-- The next statement over `MEM_MAP`. The contents of the pages are left out, and
`copy` and `clear` are only about these. -/
def exec (memMap : Nat → BitVec 8) (f : Fault) : Option ((Nat → BitVec 8) × Fault) :=
  match f.pc with
  -- `setCursor` ends with `enableInt`
  | .printk => some (memMap, { f with pc := .read, intr := true })
  | .read => some (memMap, { f with pc := .test (pageBase f.entry) })
  | .test old =>
    if old ≥ kernelMem ∧ memMap (frame old) = 1 then some (memMap, { f with pc := .single })
    else some (memMap, { f with pc := .search old 0 })
  | .single => some (memMap, { f with pc := .done none, entry := f.entry ||| pgRww })
  | .search old i =>
    -- without a free page `getFreePage` returns 0, and the task stays in `while(1)`
    if i ≥ pagesSize then none
    else if memMap i = 0 then some (memMap, { f with pc := .take old i })
    else some (memMap, { f with pc := .search old (i + 1) })
  | .take old i => some (Function.update memMap i 1, { f with pc := .clear old i })
  | .clear old i => if pageAddr i = 0 then none else some (memMap, { f with pc := .release old i })
  | .release old i =>
    let memMap :=
      if old ≥ kernelMem then Function.update memMap (frame old) (memMap (frame old) - 1) else memMap
    some (memMap, { f with pc := .map i })
  | .map i => some (memMap, { f with pc := .copy i, entry := pageAddr i ||| pgUsu ||| pgRww ||| pgP })
  | .copy i => some (memMap, { f with pc := .done (some i) })
  | .done _ => none

/-- The code of a write fault. -/
def code : Code (Nat → BitVec 8) Fault where
  exec := exec
  Calls _ _ _ := False
  Sleeps _ _ := False
  enabled f := f.intr
  Interrupts _ _ := False

/-- The page that `getFreePage` has marked as used for the task. -/
def taken (f : Fault) : Option Nat :=
  match f.pc with
  | .clear _ i | .release _ i | .map i | .copy i => some i
  | .done taken => taken
  | _ => none

/-- The old page, as long as the task counts as one of its users. -/
def old (f : Fault) : Option Nat :=
  let user (page : BitVec 32) : Option Nat := if page ≥ kernelMem then some (frame page) else none
  match f.pc with
  | .printk | .read => user (pageBase f.entry)
  | .test old | .search old _ | .take old _ | .clear old _ | .release old _ => user old
  | _ => none

/-- How often the task uses page `q`. -/
def uses (q : Nat) (f : Fault) : Nat :=
  (if f.old = some q then 1 else 0) + (if f.taken = some q then 1 else 0)

/-- The task has found a page free and not marked it yet. -/
def Window (f : Fault) : Prop := ∃ old i, f.pc = .take old i

def takes (f : Fault) : Bool :=
  match f.pc with
  | .take .. => true
  | _ => false

theorem takes_iff (f : Fault) : f.takes = true ↔ Window f := by
  obtain ⟨pc, entry, intr⟩ := f
  cases pc <;> simp [takes, Window]

instance (f : Fault) : Decidable (Window f) := decidable_of_iff _ f.takes_iff

/-- Every task has just faulted, and `MEM_MAP` counts the tasks that use a page. -/
def Start {τ : Type} [Fintype τ] (memMap : Nat → BitVec 8) (faults : τ → Fault) : Prop :=
  (∀ t, (faults t).pc = .printk) ∧ ∀ q, total (uses q) faults ≤ (memMap q).toNat

/-! ### A task that is not interrupted -/

section Uninterrupted

/-- One statement after the other. -/
def Goes (x y : (Nat → BitVec 8) × Fault) : Prop := Relation.ReflTransGen (fun x y => exec x.1 x.2 = some y) x y

variable {memMap : Nat → BitVec 8} {x y z : (Nat → BitVec 8) × Fault}

theorem Goes.step (first : exec x.1 x.2 = some y) (rest : Goes y z) : Goes x z :=
  Relation.ReflTransGen.head first rest

theorem goes_search (old entry : BitVec 32) (intr : Bool) {i j : Nat} (small : j < pagesSize)
    (free : memMap j = 0) (before : i ≤ j)
    (used : ∀ g, i ≤ g → g < j → memMap g ≠ 0) :
    Goes (memMap, ⟨.search old i, entry, intr⟩) (memMap, ⟨.take old j, entry, intr⟩) := by
  induction before using Nat.decreasingInduction with
  | of_succ i lower ih =>
    refine .step ?_ (ih fun g low => used g (Nat.le_of_succ_le low))
    have inside : ¬ i ≥ pagesSize := by omega
    simp only [exec, if_neg inside, if_neg (used i (Nat.le_refl i) lower)]
  | self =>
    refine .step ?_ .refl
    have inside : ¬ j ≥ pagesSize := by omega
    simp only [exec, if_neg inside, if_pos free]

/-- A task that is not interrupted does what `unWriteProtectPage` says. -/
theorem goes_unWriteProtectPage {m m' : Memory} {table k : Nat} (done : m.unWriteProtectPage table k = some m')
    (used : m.memMap table ≠ 0) (intr : Bool) :
    ∃ taken, Goes (m.memMap, ⟨.read, m.page table k, intr⟩) (m'.memMap, ⟨.done taken, m'.page table k, intr⟩) := by
  rw [Memory.unWriteProtectPage] at done
  dsimp only at done
  split at done
  -- the page has no other user: the entry becomes writable and nothing is taken
  next sole =>
    obtain rfl := Option.some.inj done
    refine ⟨none, .step rfl (.step (if_pos sole) (.step rfl ?_))⟩
    simp only [Memory.setEntry, Function.update_self]
    exact .refl
  -- a page is searched, taken and filled, and the old one is released
  next others =>
    rcases m.getFreePage_first with ⟨failed, _⟩ | ⟨i, small, free, first, found⟩
    · rw [failed] at done
      cases done
    · rw [found] at done
      dsimp only at done
      split at done
      next => cases done
      next nonzero =>
        have other : table ≠ i := by
          rintro rfl
          exact used free
        have number : frame (pageAddr i) = i := frame_pageAddr (Nat.lt_trans small (by decide))
        have result := Option.some.inj done
        have page : m'.page table k = pageAddr i ||| pgUsu ||| pgRww ||| pgP := by
          rw [← result, number]
          simp only [Function.update_of_ne other, Memory.setEntry, Function.update_self]
        have counts : m'.memMap = if pageBase (m.page table k) ≥ kernelMem then
            Function.update (Function.update m.memMap i 1) (frame (pageBase (m.page table k)))
              (Function.update m.memMap i 1 (frame (pageBase (m.page table k))) - 1)
            else Function.update m.memMap i 1 := by
          rw [← result]
          simp only [Memory.setEntry]
          split <;> rfl
        rw [page, counts]
        have search := goes_search (pageBase (m.page table k)) (m.page table k) intr small free (Nat.zero_le i)
          fun g _ lower => first g lower
        refine ⟨some i, .step rfl (.step (if_neg others) (search.trans ?_))⟩
        exact Goes.step rfl (.step (if_neg nonzero) (.step rfl (.step rfl (.step rfl .refl))))

end Uninterrupted

/-! ### Exclusion -/

section Exclusion

variable {τ : Type} [Fintype τ] [DecidableEq τ] {memMap memMap' : Nat → BitVec 8} {f f' : Fault} {faults : τ → Fault}

/-- What a statement can do to `MEM_MAP` and to the page of its task. -/
inductive Effect (memMap : Nat → BitVec 8) (f : Fault) : (Nat → BitVec 8) → Fault → Prop
  | found {old : BitVec 32} {i : Nat} (searches : f.pc = .search old i) (free : memMap i = 0) :
      Effect memMap f memMap { f with pc := .take old i }
  | take {old : BitVec 32} {i : Nat} (takes : f.pc = .take old i) :
      Effect memMap f (Function.update memMap i 1) { f with pc := .clear old i }
  | release {old : BitVec 32} {i : Nat} (releases : f.pc = .release old i) (main : old ≥ kernelMem) :
      Effect memMap f (Function.update memMap (frame old) (memMap (frame old) - 1)) { f with pc := .map i }
  | other {f' : Fault} (same : f'.taken = f.taken) (fewer : ∀ q, uses q f' ≤ uses q f) (outside : ¬ Window f') :
      Effect memMap f memMap f'

theorem effect_exec (done : exec memMap f = some (memMap', f')) : Effect memMap f memMap' f' := by
  have outside : ∀ {pc : FaultPc} {entry : BitVec 32} {intr : Bool}, (∀ old i, pc ≠ .take old i) →
      ¬ Window ⟨pc, entry, intr⟩ := by
    rintro pc entry intr other ⟨old, i, takes⟩
    exact other old i takes
  obtain ⟨pc, entry, intr⟩ := f
  -- one case for each statement; only `take` and `release` change a count
  cases pc with
  | take old i =>
    obtain ⟨rfl, rfl⟩ := Prod.mk.inj (Option.some.inj done)
    exact .take rfl
  | release old i =>
    obtain ⟨rfl, rfl⟩ := Prod.mk.inj (Option.some.inj done)
    dsimp only
    split
    next main => exact .release rfl main
    next kernel => exact .other rfl (fun q => by simp [uses, Fault.old, taken, kernel]) (outside (by simp))
  | search old i =>
    simp only [exec] at done
    split at done
    · cases done
    · split at done
      next free =>
        obtain ⟨rfl, rfl⟩ := Prod.mk.inj (Option.some.inj done)
        exact .found rfl free
      next =>
        obtain ⟨rfl, rfl⟩ := Prod.mk.inj (Option.some.inj done)
        exact .other rfl (fun _ => Nat.le_refl _) (outside (by simp))
  | test old =>
    simp only [exec] at done
    split at done
    · obtain ⟨rfl, rfl⟩ := Prod.mk.inj (Option.some.inj done)
      exact .other rfl (fun q => by simp [uses, Fault.old, taken]) (outside (by simp))
    · obtain ⟨rfl, rfl⟩ := Prod.mk.inj (Option.some.inj done)
      exact .other rfl (fun _ => Nat.le_refl _) (outside (by simp))
  | clear old i =>
    simp only [exec] at done
    split at done
    · cases done
    · obtain ⟨rfl, rfl⟩ := Prod.mk.inj (Option.some.inj done)
      exact .other rfl (fun _ => Nat.le_refl _) (outside (by simp))
  | done page => cases done
  | _ =>
    obtain ⟨rfl, rfl⟩ := Prod.mk.inj (Option.some.inj done)
    exact .other rfl (fun _ => Nat.le_refl _) (outside (by simp))

/-- A statement lowers the count of a page only as far as its own task uses the page no more. -/
theorem Effect.uses (effect : Effect memMap f memMap' f') (tested : ∀ old i, f.pc = .take old i → memMap i = 0)
    (q : Nat) (used : uses q f ≤ (memMap q).toNat) :
    (memMap q).toNat + Fault.uses q f' ≤ (memMap' q).toNat + Fault.uses q f := by
  obtain ⟨pc, entry, intr⟩ := f
  cases effect with
  | found searches free =>
    obtain rfl : pc = _ := searches
    exact Nat.le_refl _
  | @take old i takes =>
    obtain rfl : pc = _ := takes
    -- the task takes the page that it has found free
    have zero : (memMap i).toNat = 0 := by
      rw [tested old i rfl]
      rfl
    by_cases here : q = i
    · subst here
      have once : (1 : BitVec 8).toNat = 1 := rfl
      simp only [Fault.uses, Fault.old, taken, zero, Function.update_self, if_true, once, reduceCtorEq, if_false,
        Nat.zero_add, Nat.add_comm 1]
      exact Nat.le_refl _
    · simp [Fault.uses, Fault.old, taken, Function.update_of_ne here, Ne.symm here]
  | @release old i releases main =>
    obtain rfl : pc = _ := releases
    simp only [Fault.uses, Fault.old, taken, if_pos main] at used ⊢
    by_cases here : q = frame old
    · subst here
      simp only [if_true] at used ⊢
      -- the page to be released is one that this task uses
      have counted : 1 ≤ (memMap (frame old)).toNat := (Nat.le_add_right ..).trans used
      rw [Function.update_self, toNat_pred counted]
      simp only [reduceCtorEq, if_false, Option.some.injEq]
      omega
    · simp [Function.update_of_ne here, Ne.symm here]
  | other same fewer outside => exact Nat.add_le_add_left (fewer q) _

/-- A task comes to a page only by taking it. -/
theorem Effect.taken {i : Nat} (effect : Effect memMap f memMap' f') (has : f'.taken = some i) :
    f.taken = some i ∨ ∃ old, f.pc = .take old i := by
  cases effect with
  | found searches free => cases has
  | @take old j takes =>
    obtain rfl := Option.some.inj has
    exact .inr ⟨old, takes⟩
  | release releases main =>
    rw [Fault.taken, releases]
    exact .inl has
  | other same fewer outside => exact .inl (same.symm.trans has)

/-- A task that is about to take a page has just found it free. -/
theorem Effect.tested {old : BitVec 32} {i : Nat} (effect : Effect memMap f memMap' f') (takes : f'.pc = .take old i) :
    memMap' i = 0 := by
  cases effect with
  | found searches free =>
    obtain ⟨rfl, rfl⟩ := FaultPc.take.inj takes
    exact free
  | take takes' => cases takes
  | release releases main => cases takes
  | other same fewer outside => exact absurd ⟨old, i, takes⟩ outside

/-- `MEM_MAP` counts at least the tasks that use a page, and no two have taken the same one. -/
structure Counted (memMap : Nat → BitVec 8) (faults : τ → Fault) : Prop where
  counts : ∀ q, total (uses q) faults ≤ (memMap q).toNat
  tested : ∀ t old i, (faults t).pc = .take old i → memMap i = 0
  exclusive : Exclusive taken faults

omit [DecidableEq τ] in
theorem counted_start (start : Start memMap faults) : Counted memMap faults := by
  obtain ⟨begins, counts⟩ := start
  refine ⟨counts, fun t old i takes => ?_, fun t u i has _ => ?_⟩
  · rw [begins t] at takes
    cases takes
  · rw [taken, begins t] at has
    cases has

theorem counted_exec {s : State (Nat → BitVec 8) Fault τ} (counted : Counted s.shared s.places) (alone : Alone Window s)
    (done : exec s.shared s.place = some (memMap', f')) :
    Counted memMap' (Function.update s.places s.running f') := by
  have tested : ∀ old i, s.place.pc = .take old i → s.shared i = 0 := counted.tested s.running
  have effect := effect_exec done
  constructor
  · intro q
    have mine := le_total (uses q) s.places s.running
    have counts := counted.counts q
    have moved := effect.uses tested q (mine.trans counts)
    have sum := total_update (uses q) s.places s.running f'
    change _ + uses q s.place = _ at sum
    omega
  · intro t old i takes
    by_cases here : t = s.running
    · rw [here, Function.update_self] at takes
      exact effect.tested takes
    · rw [Function.update_of_ne here] at takes
      exact absurd ⟨old, i, takes⟩ (alone t here)
  · apply counted.exclusive.update
    intro u i other has has'
    -- a page that is taken now was free, so that no task had it
    rcases effect.taken has with before | ⟨old, takes⟩
    · exact other (counted.exclusive u s.running i has' before)
    · have none := counted.counts i
      rw [tested old i takes] at none
      have mine := (le_total (uses i) s.places u).trans none
      rw [uses, if_pos has'] at mine
      simp at mine

/-- Where no tick comes between the test of a page and the store behind it, no
two tasks get the same page. -/
theorem exclusive_of_calm {hist : List (State (Nat → BitVec 8) Fault τ × Event)} {s : State (Nat → BitVec 8) Fault τ}
    (run : Transition.Run (system code Start) hist s) (calm : ∀ x ∈ hist, Calm Window x) :
    Exclusive taken s.places := by
  have counted : Counted s.shared s.places := by
    apply invariant (G := fun _ => True) (W := Window) _ _ _ _ _ run (fun _ _ => trivial) calm
    · exact fun _ _ asleep => asleep.elim
    · intro memMap faults start
      refine ⟨counted_start start, fun t ⟨old, i, takes⟩ => ?_⟩
      rw [start.1 t] at takes
      cases takes
    · exact fun s memMap f counted alone _ done => counted_exec counted alone done
    · exact fun _ _ _ _ called => called.elim
    · exact fun _ _ _ changed => changed.elim
  exact counted.exclusive

end Exclusion

end Fault

end OperatorSystem.Mm
