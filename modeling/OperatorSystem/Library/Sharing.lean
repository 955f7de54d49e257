import Mathlib.Data.Fintype.Card
import Mathlib.Data.Fintype.Option
import Mathlib.Tactic.SplitIfs

/-!
# Reference counts and copy-on-write sharing

References of a finite type `ρ` point at frames of a type `φ`, each of them
read-only or writable. `Sound` relates the references to a table of reference
counts: on the managed frames the count is exact, a frame put to another use is
not pointed at, and a writable reference is the only one to its frame. The
rules say how the three survive when one reference is redirected (`Sound.set`)
and when a frame is taken into another use or given back.
-/

namespace Sharing

variable {ρ φ : Type} [Fintype ρ] [DecidableEq φ]

/-! ### Counting references -/

/-- The number of references to `f`. -/
def count (target : ρ → Option φ) (f : φ) : Nat :=
  (Finset.univ.filter fun r => target r = some f).card

theorem count_eq_zero {g : ρ → Option φ} {f : φ} : count g f = 0 ↔ ∀ r, g r ≠ some f := by
  simp [count, Finset.filter_eq_empty_iff]

theorem count_eq_one {g : ρ → Option φ} {f : φ} {r : ρ} (here : g r = some f)
    (only : ∀ s, g s = some f → s = r) : count g f = 1 := by
  apply Finset.card_eq_one.mpr
  refine ⟨r, ?_⟩
  ext s
  simp only [Finset.mem_filter, Finset.mem_univ, true_and, Finset.mem_singleton]
  constructor
  · exact only s
  · rintro rfl
    exact here

theorem count_unique {g : ρ → Option φ} {f : φ} {r s : ρ} (few : count g f ≤ 1)
    (left : g r = some f) (right : g s = some f) : r = s := by
  apply Finset.card_le_one.mp few
  · simpa using left
  · simpa using right

/-- References to `f` that differ in a key are at most as many as there are keys. -/
theorem count_le_card {κ : Type} [Fintype κ] [DecidableEq κ] {g : ρ → Option φ} {f : φ}
    (key : ρ → κ) (single : ∀ r s, g r = some f → g s = some f → key r = key s → r = s) :
    count g f ≤ Fintype.card κ := by
  apply Finset.card_le_card_of_injOn key
  · exact fun _ _ => Finset.mem_univ _
  · intro r hr s hs same
    simp only [Finset.coe_filter, Finset.mem_univ, true_and, Set.mem_ofPred_eq] at hr hs
    exact single r s hr hs same

/-! ### Sound sharing -/

/-- The number of references to `f`, read-only or writable. -/
def refs (look : ρ → Option (φ × Bool)) (f : φ) : Nat := count (fun r => (look r).map Prod.fst) f

theorem refs_unique {look : ρ → Option (φ × Bool)} {r s : ρ} {f : φ} {w w' : Bool}
    (few : refs look f ≤ 1) (left : look r = some (f, w)) (right : look s = some (f, w')) : r = s := by
  apply count_unique few
  · simp [left]
  · simp [right]

/-- The counts `cnt` of the managed frames agree with the references `look` and
the other uses `other`, and nobody else refers to what may be written. -/
structure Sound (managed : φ → Prop) (look : ρ → Option (φ × Bool)) (other : φ → Nat)
    (cnt : φ → Int) : Prop where
  exact : ∀ f, managed f → cnt f = refs look f + other f
  exclusive : ∀ f, managed f → 0 < other f → refs look f = 0 ∧ other f = 1
  owned : ∀ r f, look r = some (f, true) → managed f ∧ refs look f = 1

variable {managed : φ → Prop} {look : ρ → Option (φ × Bool)} {other : φ → Nat} {cnt : φ → Int}

theorem map_fst_eq_some {α : Type} {v : Option (α × Bool)} {f : α} :
    v.map Prod.fst = some f ↔ ∃ w, v = some (f, w) := by
  cases v <;> simp [Prod.ext_iff]

theorem refs_ne_zero {r : ρ} {f : φ} {w : Bool} (here : look r = some (f, w)) :
    refs look f ≠ 0 := by
  intro zero
  exact count_eq_zero.mp zero r (by simp [here])

/-- A referenced frame is in no other use. -/
theorem Sound.other_eq_zero (sound : Sound managed look other cnt) {r : ρ} {f : φ} {w : Bool}
    (here : look r = some (f, w)) (own : managed f) : other f = 0 := by
  by_contra used
  exact refs_ne_zero here (sound.exclusive f own (Nat.pos_of_ne_zero used)).1

/-- A writable reference is the only one to its frame. -/
theorem Sound.unique (sound : Sound managed look other cnt) {r s : ρ} {f : φ} {w : Bool}
    (here : look r = some (f, true)) (there : look s = some (f, w)) : s = r :=
  refs_unique (le_of_eq (sound.owned r f here).2) there here

/-- A frame whose count is 0 is not used at all. -/
theorem Sound.unused (sound : Sound managed look other cnt) {f : φ} (own : managed f)
    (zero : cnt f = 0) : refs look f = 0 ∧ other f = 0 := by
  have := sound.exact f own
  omega

/-- An unused frame is put to another use. -/
theorem Sound.hold (sound : Sound managed look other cnt) {f : φ} (own : managed f)
    (zero : cnt f = 0) :
    Sound managed look (Function.update other f 1) (Function.update cnt f 1) := by
  obtain ⟨unreferenced, unused⟩ := sound.unused own zero
  constructor
  · intro g managedg
    by_cases here : g = f
    · subst here
      simp [unreferenced]
    · simpa [here] using sound.exact g managedg
  · intro g managedg
    by_cases here : g = f
    · subst here
      simp [unreferenced]
    · simpa [here] using sound.exclusive g managedg
  · exact sound.owned

/-- The other use of a frame ends. -/
theorem Sound.release (sound : Sound managed look other cnt) {f : φ} (own : managed f)
    (used : other f = 1) :
    Sound managed look (Function.update other f 0) (Function.update cnt f (cnt f - 1)) := by
  obtain ⟨unreferenced, _⟩ := sound.exclusive f own (by omega)
  constructor
  · intro g managedg
    by_cases here : g = f
    · subst here
      have := sound.exact g managedg
      simp only [Function.update_self]
      omega
    · simpa [here] using sound.exact g managedg
  · intro g managedg
    by_cases here : g = f
    · subst here
      simp
    · simpa [here] using sound.exclusive g managedg
  · exact sound.owned

/-! ### Redirecting a reference -/

variable [DecidableEq ρ]

omit [Fintype ρ] [DecidableEq φ] in
theorem update_eq_some {g : ρ → Option φ} {r s : ρ} {f f' : φ}
    (found : Function.update g r (some f) s = some f') : (s = r ∧ f' = f) ∨ (s ≠ r ∧ g s = some f') := by
  by_cases here : s = r
  · rw [here, Function.update_self] at found
    exact .inl ⟨here, (Option.some.inj found).symm⟩
  · rw [Function.update_of_ne here] at found
    exact .inr ⟨here, found⟩

/-- What one redirected reference does to the counts. -/
theorem count_update (g : ρ → Option φ) (r : ρ) (v : Option φ) (f : φ) :
    count (Function.update g r v) f + (if g r = some f then 1 else 0) =
      count g f + (if v = some f then 1 else 0) := by
  have split : ∀ g : ρ → Option φ, count g f = (if g r = some f then 1 else 0) +
      ((Finset.univ.erase r).filter fun s => g s = some f).card := by
    intro g
    rw [count, ← Finset.insert_erase (Finset.mem_univ r), Finset.filter_insert]
    split
    · rw [Finset.card_insert_of_notMem (by simp), Finset.erase_insert (by simp), Nat.add_comm]
    · rw [Finset.erase_insert (by simp), Nat.zero_add]
  have rest : ((Finset.univ.erase r).filter fun s => Function.update g r v s = some f) =
      (Finset.univ.erase r).filter fun s => g s = some f := by
    apply Finset.filter_congr
    intro s member
    rw [Function.update_of_ne (Finset.ne_of_mem_erase member)]
  rw [split (Function.update g r v), split g, rest, Function.update_self]
  omega

theorem refs_update (look : ρ → Option (φ × Bool)) (r : ρ) (v : Option (φ × Bool)) (f : φ) :
    refs (Function.update look r v) f + (if (look r).map Prod.fst = some f then 1 else 0) =
      refs look f + (if v.map Prod.fst = some f then 1 else 0) := by
  have pushed : (fun s => (Function.update look r v s).map Prod.fst) =
      Function.update (fun s => (look s).map Prod.fst) r (v.map Prod.fst) := by
    funext s
    by_cases here : s = r
    · subst here
      simp
    · simp [here]
  rw [refs, pushed]
  exact count_update _ r _ f

/-- Redirecting one reference: the counts follow, the new frame is in no other
use, and if it is shared then only read-only. -/
theorem Sound.set {cnt' : φ → Int} (sound : Sound managed look other cnt) (r : ρ)
    (v : Option (φ × Bool))
    (counts : ∀ f, managed f → cnt' f + (if (look r).map Prod.fst = some f then 1 else 0) =
      cnt f + (if v.map Prod.fst = some f then 1 else 0))
    (apart : ∀ f w, v = some (f, w) → managed f → other f = 0)
    (protect : ∀ f w, v = some (f, w) → managed f → ∀ s, s ≠ r → ∀ w', look s = some (f, w') →
      w = false ∧ w' = false)
    (own : ∀ f, v = some (f, true) → managed f) :
    Sound managed (Function.update look r v) other cnt' := by
  constructor
  · intro f managedf
    have moved := refs_update look r v f
    have follows := counts f managedf
    have before := sound.exact f managedf
    split_ifs at moved follows <;> omega
  · intro f managedf used
    obtain ⟨none_before, single⟩ := sound.exclusive f managedf used
    refine ⟨?_, single⟩
    have moved := refs_update look r v f
    have elsewhere : v.map Prod.fst ≠ some f := by
      intro here
      obtain ⟨w, set⟩ := map_fst_eq_some.mp here
      have := apart f w set managedf
      omega
    rw [none_before, if_neg elsewhere] at moved
    omega
  · intro s f here
    by_cases same : s = r
    · subst same
      rw [Function.update_self] at here
      refine ⟨own f here, count_eq_one (r := s) (by simp [here]) ?_⟩
      intro t target
      by_contra other
      rw [Function.update_of_ne other] at target
      obtain ⟨w, found⟩ := map_fst_eq_some.mp target
      exact absurd (protect f true here (own f here) t other w found).1 (by simp)
    · rw [Function.update_of_ne same] at here
      obtain ⟨managedf, single⟩ := sound.owned s f here
      refine ⟨managedf, ?_⟩
      have moved := refs_update look r v f
      -- neither the old nor the new target of `r` is the owned frame
      have before : (look r).map Prod.fst ≠ some f := by
        intro target
        obtain ⟨w, found⟩ := map_fst_eq_some.mp target
        exact same (sound.unique here found).symm
      have after : v.map Prod.fst ≠ some f := by
        intro target
        obtain ⟨w, set⟩ := map_fst_eq_some.mp target
        exact absurd (protect f w set managedf s same true here).2 (by simp)
      rw [if_neg before, if_neg after, single] at moved
      exact moved

end Sharing
