import Mathlib.Data.List.Basic
import Mathlib.Data.List.Nodup
import Mathlib.Logic.Function.Basic

/-!
# Linked lists behind pointer functions

Nodes have any type `α`; a pointer is an `Option α`, with `none` for the null
pointer, and a family of links is a function `α → Option α`. `Seg next p l q`
says that the pointer `p` leads through exactly the nodes `l` to the pointer
`q`. `Back prev b l` is the reverse direction: each node of `l` points back to
the node before it, the first one to `b`. A doubly linked list is a `Seg`
together with a `Back`, and a `Ring` is one that ends where it starts.

Every rule for an update asks only that the updated node lies outside the
segment, or is its first or last node, so a proof about a list edit splits the
list at the edited nodes and puts the parts together again. A ring may be
turned first, so that the edited node is its first one.
-/

namespace PointerList

variable {α : Type}

/-- The pointer `p` leads through the nodes `l` to the pointer `q`. -/
def Seg (next : α → Option α) : Option α → List α → Option α → Prop
  | p, [], q => p = q
  | p, x :: l, q => p = some x ∧ Seg next (next x) l q

/-- The nodes of `l` point back along `l`, the first of them to `b`. -/
def Back (prev : α → Option α) : Option α → List α → Prop
  | _, [] => True
  | b, x :: l => prev x = b ∧ Back prev (some x) l

@[simp] theorem seg_nil {next : α → Option α} {p q : Option α} : Seg next p [] q ↔ p = q := Iff.rfl

@[simp] theorem seg_cons {next : α → Option α} {p q : Option α} {x : α} {l : List α} :
    Seg next p (x :: l) q ↔ p = some x ∧ Seg next (next x) l q := Iff.rfl

@[simp] theorem back_nil {prev : α → Option α} {b : Option α} : Back prev b [] := trivial

@[simp] theorem back_cons {prev : α → Option α} {b : Option α} {x : α} {l : List α} :
    Back prev b (x :: l) ↔ prev x = b ∧ Back prev (some x) l := Iff.rfl

/-! ### Splitting -/

theorem seg_append {next : α → Option α} {p q : Option α} {l m : List α} :
    Seg next p (l ++ m) q ↔ ∃ mid, Seg next p l mid ∧ Seg next mid m q := by
  induction l generalizing p with
  | nil => simp
  | cons x l ih => simp [ih, and_assoc]

theorem back_append {prev : α → Option α} {b : Option α} {l m : List α} :
    Back prev b (l ++ m) ↔ Back prev b l ∧ Back prev (l.getLast?.or b) m := by
  induction l generalizing b with
  | nil => simp
  | cons x l ih =>
    have last : l.getLast?.or (some x) = (x :: l).getLast?.or b := by
      rw [List.getLast?_cons]
      cases l.getLast? <;> rfl
    simp [ih, last, and_assoc]

/-- A segment that is not empty starts at its first node. -/
theorem Seg.head {next : α → Option α} {p q : Option α} {l : List α} (seg : Seg next p l q) :
    p = l.head?.or q := by
  cases l with
  | nil => exact seg
  | cons x l => exact seg.1

/-- A segment that is not empty ends where its last node points. -/
theorem Seg.last {next : α → Option α} {p q : Option α} {l : List α} {z : α}
    (seg : Seg next p (l ++ [z]) q) : next z = q := by
  obtain ⟨mid, _, tail⟩ := seg_append.mp seg
  exact tail.2

/-- The link of a node leads to the node behind it. -/
theorem Seg.next_eq {next : α → Option α} {p q : Option α} {l m : List α} {x : α}
    (seg : Seg next p (l ++ x :: m) q) : next x = m.head?.or q := by
  obtain ⟨mid, _, _, tail⟩ := seg_append.mp seg
  exact tail.head

theorem Back.prev_eq {prev : α → Option α} {b : Option α} {l m : List α} {x : α}
    (back : Back prev b (l ++ x :: m)) : prev x = l.getLast?.or b :=
  (back_append.mp back).2.1

/-! ### Null-terminated lists -/

/-- The pointer determines the list behind it. -/
theorem Seg.unique {next : α → Option α} {p : Option α} {l m : List α} (left : Seg next p l none)
    (right : Seg next p m none) : l = m := by
  induction l generalizing p m with
  | nil =>
    cases m with
    | nil => rfl
    | cons y m => exact absurd (left.symm.trans right.1) (by simp)
  | cons x l ih =>
    cases m with
    | nil => exact absurd (right.symm.trans left.1) (by simp)
    | cons y m =>
      obtain rfl : x = y := Option.some.inj (left.1.symm.trans right.1)
      rw [ih left.2 right.2]

/-- A null-terminated list visits no node twice. -/
theorem Seg.nodup {next : α → Option α} {p : Option α} {l : List α} (seg : Seg next p l none) :
    l.Nodup := by
  induction l generalizing p with
  | nil => exact List.nodup_nil
  | cons x l ih =>
    refine List.nodup_cons.mpr ⟨fun member => ?_, ih seg.2⟩
    -- from the second visit on, the list would have to be the whole list again
    obtain ⟨before, after, rfl⟩ := List.append_of_mem member
    obtain ⟨mid, _, again⟩ := seg_append.mp seg.2
    have whole : x :: (before ++ x :: after) = x :: after :=
      Seg.unique ⟨rfl, seg.2⟩ ⟨rfl, again.2⟩
    have := congrArg List.length whole
    simp only [List.length_cons, List.length_append] at this
    omega

/-! ### Updates -/

/-- Segments only depend on the links of their nodes. -/
theorem Seg.congr {next next' : α → Option α} {p q : Option α} {l : List α} (seg : Seg next p l q)
    (same : ∀ x ∈ l, next' x = next x) : Seg next' p l q := by
  induction l generalizing p with
  | nil => exact seg
  | cons x l ih =>
    refine ⟨seg.1, ?_⟩
    rw [same x List.mem_cons_self]
    exact ih seg.2 fun y member => same y (List.mem_cons_of_mem x member)

theorem Back.congr {prev prev' : α → Option α} {b : Option α} {l : List α} (back : Back prev b l)
    (same : ∀ x ∈ l, prev' x = prev x) : Back prev' b l := by
  induction l generalizing b with
  | nil => trivial
  | cons x l ih =>
    refine ⟨?_, ih back.2 fun y member => same y (List.mem_cons_of_mem x member)⟩
    rw [same x List.mem_cons_self]
    exact back.1

/-- A segment whose last node leads elsewhere. -/
theorem Seg.reend {next next' : α → Option α} {p q v : Option α} {l : List α} {z : α}
    (seg : Seg next p (l ++ [z]) q) (same : ∀ x ∈ l, next' x = next x) (last : next' z = v) :
    Seg next' p (l ++ [z]) v := by
  obtain ⟨mid, front, here, _⟩ := seg_append.mp seg
  exact seg_append.mpr ⟨mid, front.congr same, here, last⟩

/-- A list whose first node points back elsewhere. -/
theorem Back.restart {prev prev' : α → Option α} {b v : Option α} {l : List α} {x : α}
    (back : Back prev b (x :: l)) (same : ∀ y ∈ l, prev' y = prev y) (first : prev' x = v) :
    Back prev' v (x :: l) :=
  ⟨first, back.2.congr same⟩

/-! ### Rings -/

/-- The nodes of `l` form a ring: the last one leads to the first and back. -/
def Ring (next prev : α → Option α) (l : List α) : Prop :=
  Seg next l.head? l l.head? ∧ Back prev l.getLast? l

section Ring

variable {next prev next' prev' : α → Option α} {l m : List α} {x : α}

theorem Ring.rotate (ring : Ring next prev (l ++ m)) : Ring next prev (m ++ l) := by
  cases l with
  | nil => simpa using ring
  | cons x l =>
    cases m with
    | nil => simpa using ring
    | cons y m =>
      obtain ⟨mid, front, back⟩ := seg_append.mp ring.1
      obtain rfl : mid = some y := back.1
      have links := back_append.mp ring.2
      simp only [List.getLast?_append, List.getLast?_cons, Option.some_or] at links
      refine ⟨seg_append.mpr ⟨some x, back, front⟩, back_append.mpr ?_⟩
      simp only [List.getLast?_append, List.getLast?_cons, Option.some_or]
      exact ⟨links.2, links.1⟩

/-- Where the two links of a node lead. -/
theorem Ring.links (ring : Ring next prev (x :: l)) :
    next x = l.head?.or (some x) ∧ prev x = l.getLast?.or (some x) := by
  constructor
  · exact ring.1.2.head
  · rw [ring.2.1, List.getLast?_cons]
    cases l.getLast? <;> rfl

/-- Every link of a node leads to a node. -/
theorem Ring.closed (ring : Ring next prev l) (member : x ∈ l) :
    (∃ y ∈ l, next x = some y) ∧ ∃ y ∈ l, prev x = some y := by
  obtain ⟨front, back, rfl⟩ := List.append_of_mem member
  have links := Ring.links (l := back ++ front) (by simpa using ring.rotate)
  constructor
  · cases first : (back ++ front).head? with
    | none => exact ⟨x, member, by rw [links.1, first, Option.none_or]⟩
    | some y =>
      have inside := List.mem_of_mem_head? first
      exact ⟨y, by simp only [List.mem_append, List.mem_cons] at inside ⊢; tauto,
        by rw [links.1, first, Option.some_or]⟩
  · cases last : (back ++ front).getLast? with
    | none => exact ⟨x, member, by rw [links.2, last, Option.none_or]⟩
    | some y =>
      have inside := List.mem_of_getLast? last
      exact ⟨y, by simp only [List.mem_append, List.mem_cons] at inside ⊢; tauto,
        by rw [links.2, last, Option.some_or]⟩

/-- Consecutive nodes of a family are a segment. -/
theorem seg_range {f : Nat → α} {s k : Nat} (links : ∀ i < k, next (f (s + i)) = some (f (s + i + 1))) :
    Seg next (some (f s)) ((List.range' s k).map f) (some (f (s + k))) := by
  induction k generalizing s with
  | zero => rfl
  | succ k ih =>
    refine ⟨rfl, ?_⟩
    rw [show next (f s) = some (f (s + 1)) from links 0 (Nat.succ_pos k), show s + (k + 1) = s + 1 + k by omega]
    refine ih fun i small => ?_
    rw [show s + 1 + i = s + (i + 1) by omega]
    exact links (i + 1) (by omega)

theorem back_range {f : Nat → α} {s k : Nat} (links : ∀ i < k, prev (f (s + i + 1)) = some (f (s + i))) :
    Back prev (some (f s)) ((List.range' (s + 1) k).map f) := by
  induction k generalizing s with
  | zero => trivial
  | succ k ih =>
    refine ⟨links 0 (Nat.succ_pos k), ih fun i small => ?_⟩
    rw [show s + 1 + i = s + (i + 1) by omega]
    exact links (i + 1) (by omega)

/-- A family of nodes that leads on by one, and from its last node to the first. -/
theorem ring_range {f : Nat → α} {n : Nat} (forth : ∀ i < n, next (f i) = some (f (i + 1)))
    (back : ∀ i < n, prev (f (i + 1)) = some (f i)) (last : next (f n) = some (f 0))
    (first : prev (f 0) = some (f n)) : Ring next prev ((List.range (n + 1)).map f) := by
  constructor
  · have start : ((List.range (n + 1)).map f).head? = some (f 0) := by
      rw [List.range_succ_eq_map]
      rfl
    have front := seg_range (f := f) (s := 0) (k := n) (fun i small => by simpa using forth i small)
    rw [start, List.range_succ, List.map_append, List.range_eq_range']
    rw [Nat.zero_add] at front
    exact seg_append.mpr ⟨some (f n), front, rfl, last⟩
  · have final : ((List.range (n + 1)).map f).getLast? = some (f n) := by
      rw [List.range_succ, List.map_append]
      exact List.getLast?_concat
    rw [final, List.range_eq_range']
    refine ⟨first, back_range (f := f) (s := 0) (k := n) fun i small => ?_⟩
    simpa using back i small

end Ring

variable [DecidableEq α]

section Ring

variable {next prev next' prev' : α → Option α} {l : List α} {x : α}

/-- A ring without its first node. -/
theorem Ring.tail (ring : Ring next prev (x :: l)) (single : l.Nodup) (rest : l ≠ [])
    (forth : ∀ a ∈ l, next' a = if prev x = some a then next x else next a)
    (back : ∀ a ∈ l, prev' a = if next x = some a then prev x else prev a) : Ring next' prev' l := by
  obtain ⟨ahead, behind⟩ := ring.links
  -- the last node now leads to the second one, and that one back
  constructor
  · obtain ⟨front, z, rfl⟩ := (List.eq_nil_or_concat' l).resolve_left rest
    have last : prev x = some z := by rw [behind, List.getLast?_concat, Option.some_or]
    have first : next x = (front ++ [z]).head? := by cases front <;> simpa using ahead
    rw [← first]
    refine ring.1.2.reend ?_ ?_
    · intro a member
      rw [forth a (by simp [member]), last, if_neg]
      intro same
      obtain rfl : z = a := Option.some.inj same
      exact (List.nodup_append.mp single).2.2 z member z (by simp) rfl
    · rw [forth z (by simp), if_pos last]
  · cases l with
    | nil => exact absurd rfl rest
    | cons y l =>
      have first : next x = some y := by simpa using ahead
      have last : prev x = (y :: l).getLast? := by rw [behind, List.getLast?_cons, Option.some_or]
      rw [← last]
      refine ring.2.2.restart ?_ ?_
      · intro a member
        rw [back a (List.mem_cons_of_mem y member), first, if_neg]
        intro same
        obtain rfl : y = a := Option.some.inj same
        exact (List.nodup_cons.mp single).1 member
      · rw [back y List.mem_cons_self, if_pos first]

/-- A ring with `x` put behind its last node. -/
theorem Ring.insert {y : α} (ring : Ring next prev (y :: l)) (single : (y :: l).Nodup) (fresh : x ∉ y :: l)
    (forth : ∀ a, next' a = if prev y = some a then some x else if a = x then some y else next a)
    (back : ∀ a, prev' a = if a = y then some x else if a = x then prev y else prev a) :
    Ring next' prev' (y :: l ++ [x]) := by
  have old : ∀ a ∈ y :: l, a ≠ x := fun a member => ne_of_mem_of_not_mem member fresh
  -- the last node is the one in front of the first
  have first : prev y = (y :: l).getLast? := ring.2.1
  refine ⟨seg_append.mpr ⟨some x, ?_, rfl, ?_⟩, ?_⟩
  · obtain ⟨front, z, whole⟩ := (List.eq_nil_or_concat' (y :: l)).resolve_left (by simp)
    have last : prev y = some z := by rw [first, whole, List.getLast?_concat]
    have seg : Seg next (some y) (y :: l) (some y) := ring.1
    change Seg next' (some y) (y :: l) (some x)
    rw [whole] at seg single ⊢
    refine seg.reend ?_ ?_
    · intro a member
      rw [forth, last, if_neg, if_neg (old a (by simp [whole, member]))]
      intro same
      obtain rfl : z = a := Option.some.inj same
      exact (List.nodup_append.mp single).2.2 z member z (by simp) rfl
    · rw [forth, if_pos last]
  · rw [forth, if_neg, if_pos rfl]
    · rfl
    · intro same
      exact old x (List.mem_of_getLast? (first ▸ same)) rfl
  · rw [List.getLast?_concat]
    refine back_append.mpr ⟨ring.2.restart ?_ ?_, ?_, trivial⟩
    · intro a member
      rw [back, if_neg, if_neg (old a (List.mem_cons_of_mem y member))]
      rintro rfl
      exact (List.nodup_cons.mp single).1 member
    · rw [back, if_pos rfl]
    · rw [back, if_neg (old y List.mem_cons_self).symm, if_pos rfl, first, List.getLast?_cons, Option.some_or]

end Ring

/-! ### Taking a node out -/

/-- Without `x`, the node before it leads on to the node behind it. -/
theorem Seg.unlink {next next' : α → Option α} {p q : Option α} {l m : List α} {x : α}
    (seg : Seg next p (l ++ x :: m) q) (single : (l ++ x :: m).Nodup)
    (links : ∀ a ∈ l ++ m, next' a = if l.getLast? = some a then next x else next a) :
    Seg next' (if l = [] then next x else p) (l ++ m) q := by
  rcases List.eq_nil_or_concat' l with rfl | ⟨front, z, rfl⟩
  · exact seg.2.congr fun a member => by simpa using links a member
  · have last : (front ++ [z]).getLast? = some z := List.getLast?_concat
    simp only [last, Option.some.injEq] at links
    simp only [List.nodup_append, List.nodup_cons] at single
    obtain ⟨mid, before, here⟩ := seg_append.mp seg
    rw [if_neg (by simp)]
    refine seg_append.mpr ⟨next x, before.reend ?_ ?_, here.2.congr ?_⟩
    · intro a member
      rw [links a (by simp [member]), if_neg]
      rintro rfl
      exact single.1.2.2 z member z (by simp) rfl
    · rw [links z (by simp), if_pos rfl]
    · intro a member
      rw [links a (by simp [member]), if_neg]
      rintro rfl
      exact single.2.2 z (by simp) z (List.mem_cons_of_mem x member) rfl

/-- Without `x`, the node behind it points back to the node before it. -/
theorem Back.unlink {prev prev' : α → Option α} {b : Option α} {l m : List α} {x : α}
    (back : Back prev b (l ++ x :: m)) (single : (l ++ x :: m).Nodup)
    (links : ∀ a ∈ l ++ m, prev' a = if m.head? = some a then prev x else prev a) :
    Back prev' b (l ++ m) := by
  obtain ⟨before, here, behind⟩ := back_append.mp back
  simp only [List.nodup_append, List.nodup_cons] at single
  refine back_append.mpr ⟨before.congr ?_, ?_⟩
  · intro a member
    rw [links a (by simp [member]), if_neg]
    intro first
    exact single.2.2 a member a (List.mem_cons_of_mem x (List.mem_of_mem_head? first)) rfl
  · -- only a node behind `x` has a link to change
    cases m with
    | nil => trivial
    | cons y m =>
      refine behind.restart ?_ ?_
      · intro a member
        rw [links a (by simp [member]), if_neg]
        intro first
        obtain rfl : y = a := Option.some.inj first
        exact (List.nodup_cons.mp single.2.1.2).1 member
      · rw [links y (by simp), if_pos List.head?_cons]
        exact here

/-! ### Single updates -/


theorem Seg.update {next : α → Option α} {p q v : Option α} {l : List α} {x : α}
    (seg : Seg next p l q) (outside : x ∉ l) : Seg (Function.update next x v) p l q :=
  seg.congr fun _ member => Function.update_of_ne (ne_of_mem_of_not_mem member outside) _ _

theorem Back.update {prev : α → Option α} {b v : Option α} {l : List α} {x : α}
    (back : Back prev b l) (outside : x ∉ l) : Back (Function.update prev x v) b l :=
  back.congr fun _ member => Function.update_of_ne (ne_of_mem_of_not_mem member outside) _ _

/-- A new node `r` stored behind the node `t` of a segment. -/
theorem Seg.insertAfter {next : α → Option α} {p q : Option α} {l m : List α} {t r : α}
    (seg : Seg next p (l ++ t :: m) q) (single : (l ++ t :: m).Nodup) (fresh : r ∉ l ++ t :: m) :
    Seg (Function.update (Function.update next r (next t)) t (some r)) p (l ++ t :: r :: m) q := by
  simp only [List.mem_append, List.mem_cons, not_or] at fresh
  obtain ⟨notLeft, notHere, notRight⟩ := fresh
  obtain ⟨_, tailSingle, apart⟩ := List.nodup_append.mp single
  have notBefore : t ∉ l := fun member => apart t member t List.mem_cons_self rfl
  have notAfter : t ∉ m := (List.nodup_cons.mp tailSingle).1
  obtain ⟨mid, front, here, back⟩ := seg_append.mp seg
  refine seg_append.mpr ⟨mid, (front.update notLeft).update notBefore, here, ?_, ?_⟩
  · exact Function.update_self ..
  · rw [Function.update_of_ne notHere, Function.update_self]
    exact (back.update notRight).update notAfter

end PointerList
