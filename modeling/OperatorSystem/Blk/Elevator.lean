import OperatorSystem.Blk.Request
import OperatorSystem.Library.Descents

/-!
# The order of the request queue (`ll_rw_blk.c`)

`IN_ORDER` compares two requests by their key, the command, the device and the
sector. The queue of a device is a sorted sequence cut at most once: the driver
works at its head, and what it has passed already waits behind the descent. The
loop of `addRequest` is `Descents.elevate` on the list of slots, so the new
request leaves at most one descent. The driver moves the key of the head on by
one sector, between two sectors where a block may start.
-/

namespace OperatorSystem.Blk

open PointerList Descents

/-- What `IN_ORDER` compares. -/
def Request.key (q : Request) : Int × Int × BitVec 32 := (q.cmd, q.dev, q.sector)

theorem key_eq {q r : Request} : q.key = r.key ↔ q.cmd = r.cmd ∧ q.dev = r.dev ∧ q.sector = r.sector := by
  simp [Request.key]

/-- Two requests with different keys are in order one way round. -/
theorem inOrder_comparable {q r : Request} (different : q.key ≠ r.key) : inOrder q r ∨ inOrder r q := by
  have apart : q.cmd ≠ r.cmd ∨ q.dev ≠ r.dev ∨ q.sector ≠ r.sector := by
    simpa only [ne_eq, key_eq, not_and_or] using different
  have sectors : q.sector ≠ r.sector → q.sector < r.sector ∨ r.sector < q.sector := by
    intro other
    rw [BitVec.lt_def, BitVec.lt_def]
    have := BitVec.toNat_ne.mp other
    omega
  rcases lt_trichotomy q.cmd r.cmd with less | cmds | greater
  · exact Or.inl (Or.inl less)
  · rcases lt_trichotomy q.dev r.dev with less | devs | greater
    · exact Or.inl (Or.inr ⟨cmds, Or.inl less⟩)
    · have := sectors ((apart.resolve_left (not_not.mpr cmds)).resolve_left (not_not.mpr devs))
      rcases this with less | greater
      · exact Or.inl (Or.inr ⟨cmds, Or.inr ⟨devs, less⟩⟩)
      · exact Or.inr (Or.inr ⟨cmds.symm, Or.inr ⟨devs.symm, greater⟩⟩)
    · exact Or.inr (Or.inr ⟨cmds.symm, Or.inl greater⟩)
  · exact Or.inr (Or.inl greater)

theorem inOrder_congr {q q' r r' : Request} (left : q'.key = q.key) (right : r'.key = r.key) :
    inOrder q' r' ↔ inOrder q r := by
  obtain ⟨cmd, dev, sector⟩ := key_eq.mp left
  obtain ⟨cmd', dev', sector'⟩ := key_eq.mp right
  simp only [inOrder, cmd, dev, sector, cmd', dev', sector']

namespace Queue

def key (s : Queue) (r : ReqSlot) : Int × Int × BitVec 32 := (s.request r).key

/-- The request in slot `i` is `IN_ORDER` before the one in slot `j`. -/
def InOrder (s : Queue) (i j : ReqSlot) : Prop := inOrder (s.request i) (s.request j)

instance (s : Queue) : DecidableRel s.InOrder := fun i j =>
  inferInstanceAs (Decidable (inOrder (s.request i) (s.request j)))

/-- The device `m` has the requests `l`, of different keys and with at most one descent. -/
structure OneDescent (s : Queue) (m : Nat) (l : List ReqSlot) : Prop where
  requests : l ≠ []
  seg : Seg s.link (s.blkDev m).currentRequest l none
  distinct : (l.map s.key).Nodup
  descents_le : descents s.InOrder l ≤ 1

/-- The loop of `addRequest` stops where `elevate` inserts, by induction on its rounds. -/
theorem scan_elevate {s : Queue} {req t : ReqSlot} {l : List ReqSlot} {fuel : Nat}
    (seg : Seg s.link (some t) (t :: l) none) (enough : l.length < fuel) :
    ∃ u before after, s.scan req fuel t = some u ∧ t :: l = before ++ u :: after ∧
      elevate s.InOrder req t l = before ++ u :: req :: after := by
  induction fuel generalizing t l with
  | zero => exact absurd enough (Nat.not_lt_zero _)
  | succ fuel ih =>
    cases l with
    | nil =>
      have last : s.link t = none := seg.2
      refine ⟨t, [], [], ?_, rfl, rfl⟩
      simp only [scan, last]
    | cons nx l =>
      have next : s.link t = some nx := seg.2.1
      have rest : Seg s.link (some nx) (nx :: l) none := next ▸ seg.2
      simp only [scan, next, elevate]
      split
      next here => exact ⟨t, [], nx :: l, rfl, rfl, if_pos here⟩
      next further =>
        obtain ⟨u, before, after, stops, whole, inserted⟩ := ih rest (by simpa using enough)
        refine ⟨u, t :: before, after, stops, by rw [whole]; rfl, ?_⟩
        exact (if_neg further).trans (congrArg (t :: ·) inserted)

theorem descents_same {s s' : Queue} {l : List ReqSlot} (keys : ∀ r ∈ l, s'.key r = s.key r) :
    descents s'.InOrder l = descents s.InOrder l :=
  descents_congr fun i left j right => inOrder_congr (keys i left) (keys j right)

/-- The new request goes behind the head, and the queue keeps its one descent. -/
theorem OneDescent.addRequest {s : Queue} {m : Nat} {l : List ReqSlot} {req : ReqSlot}
    (one : OneDescent s m l) (further : s.key req ∉ l.map s.key) :
    ∃ s' l₁ l₂, s.addRequest m req = some s' ∧ l = l₁ ++ l₂ ∧ l₁ ≠ [] ∧
      OneDescent s' m (l₁ ++ req :: l₂) ∧ s'.blkDev = s.blkDev ∧
      ∀ r, s'.request r = { s.request r with next := (s'.request r).next } := by
  have fresh : req ∉ l := fun member => further (List.mem_map_of_mem member)
  obtain ⟨requests, seg, distinct, few⟩ := one
  cases l with
  | nil => exact absurd rfl requests
  | cons first l =>
    have headed : (s.blkDev m).currentRequest = some first := seg.1
    rw [headed] at seg
    obtain ⟨heads, prepared⟩ := queued_eq s req
    have short : l.length < nrRequest := length_le_nrRequest seg.nodup
    -- the scan stops behind the first request where the order lets the new one in
    obtain ⟨u, before, after, stops, whole, inserted⟩ : ∃ u before after,
        (s.queued req).scan req nrRequest first = some u ∧ _ :=
      scan_elevate (queued_seg seg fresh) short
    rw [whole] at seg fresh
    obtain ⟨s', result, devices, linked, _, _, same⟩ := addRequest_behind headed seg fresh stops
    have keys : ∀ r, s'.key r = s.key r := by
      intro r
      rw [key, same r]
      rfl
    -- requests differ in their keys, so one of two comes before the other
    have keys' : ∀ r, (s.queued req).key r = s.key r := by
      intro r
      rw [key, prepared]
      by_cases here : r = req
      · simp [here, key, Request.key]
      · simp [here, key]
    refine ⟨s', before ++ [u], after, result, ?_, by simp, ?_, devices, same⟩
    · rw [whole, List.append_assoc]
      rfl
    rw [List.append_assoc]
    refine ⟨by simp, ?_, ?_, ?_⟩
    · rw [devices, headed]
      exact linked
    · rw [List.map_congr_left fun r _ => keys r]
      have perm : (before ++ [u] ++ req :: after).Perm (req :: (first :: l)) := by
        rw [whole]
        have middle : (before ++ [u] ++ req :: after).Perm (req :: (before ++ [u] ++ after)) :=
          List.perm_middle
        simpa using middle
      rw [List.append_assoc] at perm
      exact (perm.map s.key).nodup_iff.mpr (List.nodup_cons.mpr ⟨further, distinct⟩)
    · rw [descents_same fun r _ => keys r]
      change descents s.InOrder (before ++ u :: req :: after) ≤ 1
      rw [← inserted]
      have bounded : descents (s.queued req).InOrder (elevate (s.queued req).InOrder req first l) ≤ 1 := by
        refine descents_elevate ?_ ?_
        · intro r member
          refine inOrder_comparable fun equal => further ?_
          have : s.key req = s.key r := by rw [← keys', ← keys' r]; exact equal
          rw [this]
          exact List.mem_map_of_mem (List.mem_cons_of_mem first member)
        · rw [descents_same fun r _ => keys' r]
          exact few
      rw [← descents_same fun r _ => keys' r]
      exact bounded

/-- Filling a free slot leaves the queue as it is. -/
theorem OneDescent.fill {s : Queue} {m : Nat} {l : List ReqSlot} {req : ReqSlot} {q : Request}
    (one : OneDescent s m l) (free : req ∉ l) :
    OneDescent (s.setRequest req q) m l ∧ l.map (s.setRequest req q).key = l.map s.key := by
  have keys : ∀ r ∈ l, (s.setRequest req q).key r = s.key r := by
    intro r member
    have other : r ≠ req := ne_of_mem_of_not_mem member free
    simp [key, other]
  have same : l.map (s.setRequest req q).key = l.map s.key := List.map_congr_left keys
  refine ⟨⟨one.requests, ?_, ?_, ?_⟩, same⟩
  · rw [setRequest_link, setRequest_blkDev]
    exact one.seg.update free
  · rw [same]
    exact one.distinct
  · rw [descents_same keys]
    exact one.descents_le

/-! ### The driver between two insertions -/

/-- The driver has moved the request on by one sector. -/
structure Moved (q q' : Request) : Prop where
  cmd : q'.cmd = q.cmd
  dev : q'.dev = q.dev
  sector : q'.sector = q.sector + 1
  next : q'.next = q.next

/-- Where a block may start. -/
def Even (q : Request) : Prop := q.sector.toNat % 2 = 0

/-- The sector behind an even one is not the first of another block. -/
theorem moved_sector {x y : BitVec 32} (even : x.toNat % 2 = 0) (other : y.toNat % 2 = 0) :
    (x + 1 < y ↔ x < y) ∧ x + 1 ≠ y := by
  have bound := x.isLt
  have one : (1 : BitVec 32).toNat = 1 := rfl
  have value : (x + 1).toNat = x.toNat + 1 := by
    rw [BitVec.toNat_add, one]
    omega
  simp only [BitVec.lt_def, ne_eq, ← BitVec.toNat_inj, value]
  omega

/-- The queue after a sector of the head: its key stays on the same side of the others. -/
theorem OneDescent.move {s : Queue} {m : Nat} {first : ReqSlot} {l : List ReqSlot} {q : Request}
    (one : OneDescent s m (first :: l)) (moved : Moved (s.request first) q) (even : Even (s.request first))
    (others : ∀ r ∈ l, Even (s.request r)) : OneDescent (s.setRequest first q) m (first :: l) := by
  obtain ⟨requests, seg, distinct, few⟩ := one
  obtain ⟨apart, distinct⟩ := List.nodup_cons.mp (List.map_cons ▸ distinct)
  -- the head moves up by one sector; its successor is not passed by that
  have fresh : first ∉ l := fun member => apart (List.mem_map_of_mem member)
  have same : ∀ r ∈ l, (s.setRequest first q).key r = s.key r := by
    intro r member
    have other : r ≠ first := ne_of_mem_of_not_mem member fresh
    simp [key, other]
  refine ⟨requests, ?_, ?_, ?_⟩
  · rw [setRequest_link, moved.next]
    change Seg (Function.update s.link first (s.link first)) _ _ _
    rw [Function.update_eq_self]
    exact seg
  · rw [List.map_cons, List.map_congr_left same]
    refine List.nodup_cons.mpr ⟨fun member => ?_, distinct⟩
    obtain ⟨r, inside, equal⟩ := List.mem_map.mp member
    have sector := (key_eq.mp equal).2.2
    simp only [setRequest_request, Function.update_self, moved.sector] at sector
    exact (moved_sector even (others r inside)).2 sector.symm
  · cases l with
    | nil => simp [descents]
    | cons b l =>
      have next : (s.setRequest first q).InOrder first b ↔ s.InOrder first b := by
        have other : b ≠ first := fun h => fresh (by simp [h])
        have sectors := (moved_sector even (others b List.mem_cons_self)).1
        simp only [InOrder, inOrder, setRequest_request, Function.update_self,
          Function.update_of_ne other, moved.cmd, moved.dev, moved.sector, sectors]
      simp only [descents, next] at few ⊢
      rw [descents_same same]
      exact few

/-- A request is filled in and queued, or the driver moves the head on from the
first sector of its block. -/
inductive ElevatorStep (m : Nat) : Queue → ReqSlot × Request → Queue → Prop
  | insert {s s' : Queue} {req : ReqSlot} {q : Request} {l : List ReqSlot}
      (seg : Seg s.link (s.blkDev m).currentRequest l none) (free : req ∉ l)
      (further : q.key ∉ l.map s.key) (even : Even q)
      (done : (s.setRequest req q).addRequest m req = some s') : ElevatorStep m s (req, q) s'
  | move {s : Queue} {curr : ReqSlot} {q : Request} (head : (s.blkDev m).currentRequest = some curr)
      (even : Even (s.request curr)) (moved : Moved (s.request curr) q) :
      ElevatorStep m s (curr, q) (s.setRequest curr q)

/-- The device `m`, from the queue `s₀` on, between insertions and transfers. -/
def elevator (m : Nat) (s₀ : Queue) : Transition.System Queue (ReqSlot × Request) where
  init s := s = s₀
  step := ElevatorStep m

/-- `addRequest` puts the request `q` behind the head, leaves the requests `l` in
their order, and keeps one descent. -/
def Inserts (s : Queue) (m : Nat) (l : List ReqSlot) (req : ReqSlot) (q : Request) : Prop :=
  ∃ s' l₁ l₂, (s.setRequest req q).addRequest m req = some s' ∧ l = l₁ ++ l₂ ∧ l₁ ≠ [] ∧
    OneDescent s' m (l₁ ++ req :: l₂) ∧ s'.blkDev = s.blkDev ∧
    ∀ r, s'.request r = { (s.setRequest req q).request r with next := (s'.request r).next }

theorem OneDescent.inserts {s : Queue} {m : Nat} {l : List ReqSlot} {req : ReqSlot} {q : Request}
    (one : OneDescent s m l) (free : req ∉ l) (further : q.key ∉ l.map s.key) : Inserts s m l req q := by
  obtain ⟨filled, same⟩ := one.fill (q := q) free
  refine filled.addRequest ?_
  rw [same, key, setRequest_request, Function.update_self]
  exact further

/-- What holds between insertions: the requests behind the head start at even sectors. -/
structure Elevator (m : Nat) (first : ReqSlot) (s : Queue) : Prop where
  one : ∃ l, OneDescent s m (first :: l) ∧ ∀ r ∈ l, Even (s.request r)

theorem Elevator.step {m : Nat} {first : ReqSlot} {a : ReqSlot × Request} {s s' : Queue}
    (holds : Elevator m first s) (taken : ElevatorStep m s a s') : Elevator m first s' := by
  obtain ⟨l, one, others⟩ := holds
  cases taken with
  | @insert _ req q _ seg free further even done =>
    obtain rfl := Seg.unique seg one.seg
    obtain ⟨s'', l₁, l₂, result, whole, front, after, _, same⟩ := one.inserts free further
    obtain rfl : s'' = s' := Option.some.inj (result.symm.trans done)
    obtain ⟨x, l₁, rfl⟩ := List.exists_cons_of_ne_nil front
    obtain ⟨rfl, rfl⟩ := List.cons.inj whole
    refine ⟨l₁ ++ req :: l₂, after, fun r member => ?_⟩
    -- an insertion changes links only, so the sectors stay even
    have kept : Even (s''.request r) ↔ Even ((s.setRequest req q).request r) := by
      rw [same r]
      rfl
    rw [kept]
    by_cases new : r = req
    · simpa [new] using even
    · have old : r ∈ l₁ ++ l₂ := by
        simp only [List.mem_append, List.mem_cons] at member ⊢
        tauto
      simpa [new] using others r old
  | @move curr q head even moved =>
    obtain rfl : curr = first := Option.some.inj (head.symm.trans one.seg.1)
    refine ⟨l, one.move moved even others, fun r member => ?_⟩
    have fresh : curr ∉ l := (List.nodup_cons.mp one.seg.nodup).1
    have other : r ≠ curr := ne_of_mem_of_not_mem member fresh
    simpa [other] using others r member

/-- Every insertion into a queue with one descent leaves one descent, also after
any number of insertions and transfers of a first sector. -/
theorem addRequest_elevator {s : Queue} {m : Nat} {first : ReqSlot} {l : List ReqSlot}
    (one : OneDescent s m (first :: l)) :
    (∀ req q, req ∉ first :: l → q.key ∉ (first :: l).map s.key → Inserts s m (first :: l) req q) ∧
    ((∀ r ∈ l, Even (s.request r)) → ∀ s', Transition.Reachable (elevator m s) s' →
      ∃ l', OneDescent s' m (first :: l') ∧ ∀ req q, req ∉ first :: l' →
        q.key ∉ (first :: l').map s'.key → Inserts s' m (first :: l') req q) := by
  constructor
  · exact fun req q free further => one.inserts free further
  · intro others s' reached
    have holds : Elevator m first s' := by
      refine reached.invariant (I := Elevator m first) ?_ ?_
      · rintro s rfl
        exact ⟨l, one, others⟩
      · exact fun s a s' holds taken => holds.step taken
    obtain ⟨l', after, _⟩ := holds
    exact ⟨l', after, fun req q free further => after.inserts free further⟩

/-- The driver reads block 2, and block 1 waits behind the descent. -/
def rotated : Queue where
  heads := fun _ => ⟨0, 0, 0x300, false, false, 0, true, none, none, none, none⟩
  request := fun r => ⟨0x300, 0, 0, if r = 0 then 4 else 2, 2, 0, none, if r = 0 then some 1 else none⟩
  blkDev := fun _ => ⟨true, some 0⟩
  waiting := []
  outstanding := {0, 1}

/-- A read of block 3 goes between the two, also after the first sector of block 2. -/
theorem addRequest_elevator_rotated :
    OneDescent rotated majorNr [0, 1] ∧ Inserts rotated majorNr [0, 1] 2 ⟨0x300, 0, 0, 6, 2, 0, none, none⟩ ∧
      ∃ l', OneDescent (rotated.setRequest 0 ⟨0x300, 0, 0, 5, 1, 512, none, some 1⟩) majorNr (0 :: l') := by
  have one : OneDescent rotated majorNr [0, 1] :=
    ⟨by decide, ⟨rfl, rfl, rfl⟩, by decide, by decide⟩
  obtain ⟨inserts, along⟩ := addRequest_elevator one
  have moved : Moved (rotated.request 0) ⟨0x300, 0, 0, 5, 1, 512, none, some 1⟩ := ⟨rfl, rfl, rfl, rfl⟩
  have start : Transition.Reachable (elevator majorNr rotated) rotated := .init rfl
  obtain ⟨l', after, _⟩ := along (by simp [Even, rotated]) _ (start.step (.move rfl (by simp [Even, rotated]) moved))
  exact ⟨one, inserts 2 _ (by decide) (by decide), l', after⟩

end Queue

end OperatorSystem.Blk
