import OperatorSystem.Blk.Progress
import OperatorSystem.Library.Preemption

/-!
# Block requests under preemption (`ll_rw_blk.c`)

`makeRequest` statement by statement, for tasks that run it at the same time
over one request table. `lockBuffer` ends with `enableInt`, so that the search
for a free slot runs with interrupts enabled, and between the test of
`req->dev` and the store behind it another task may find the same slot free.
-/

namespace OperatorSystem.Blk

open OperatorSystem.Fs Preemption

/-- The next statement of `makeRequest` and the functions it calls, with the slots
that are still to be tested or the one that is chosen. -/
inductive RequestPc
  | ahead
  | lock
  | test
  | search (slots : List ReqSlot)
  | asleep
  | take (r : ReqSlot)
  | fill (r : ReqSlot)
  | add (r : ReqSlot)
  | done

/-- A task in `makeRequest`, with the arguments of the call. -/
structure Requester where
  pc : RequestPc
  m : Nat
  rw : Rw
  b : Addr
  /-- the interrupt flag -/
  intr : Bool

namespace Requester

variable {q q' : Queue} {c c' : Requester} {r : ReqSlot}

def exec (q : Queue) (c : Requester) : Option (Queue × Requester) :=
  match c.pc with
  | .ahead =>
    if c.rw.ahead ∧ (q.heads c.b).lock then some (q, { c with pc := .done }) else some (q, { c with pc := .lock })
  | .lock =>
    -- a locked buffer keeps the task in `sleepOn`; `lockBuffer` ends with `enableInt`
    if (q.heads c.b).lock then none
    else some (q.setHead c.b { q.heads c.b with lock := true }, { c with pc := .test, intr := true })
  | .test =>
    if (c.rw.cmd = 1 ∧ ¬ (q.heads c.b).dirt) ∨ (c.rw.cmd = 0 ∧ (q.heads c.b).uptodate) then
      some (q.unlockBuffer c.b, { c with pc := .done })
    else some (q, { c with pc := .search (Queue.searched c.rw) })
  | .search [] =>
    if c.rw.ahead then some (q.unlockBuffer c.b, { c with pc := .done }) else some (q, { c with pc := .asleep })
  | .search (r :: slots) =>
    if (q.request r).dev < 0 then some (q, { c with pc := .take r }) else some (q, { c with pc := .search slots })
  | .asleep => some (q, { c with pc := .search (Queue.searched c.rw) })
  | .take r => some (q.setRequest r { q.request r with dev := (q.heads c.b).dev.toNat }, { c with pc := .fill r })
  | .fill r =>
    some (q.setRequest r
      { q.request r with
        cmd := c.rw.cmd
        errors := 0
        sector := (q.heads c.b).blockNr <<< 1
        nrSectors := 2
        buffer := (q.heads c.b).data
        bh := some c.b
        next := none }, { c with pc := .add r })
  | .add r => (q.addRequest c.m r).map fun q => (q, { c with pc := .done })
  | .done => none

/-- The code of `makeRequest`, which a task calls again and again. The disk
completes requests that are queued. -/
def code : Code Queue Requester where
  exec := exec
  Calls _ c c' := c.pc = .done ∧ c'.pc = .ahead
  Sleeps q c := c.pc = .asleep ∨ c.pc = .lock ∧ (q.heads c.b).lock
  enabled c := c.intr
  Interrupts q q' := ∃ curr uptodate, curr ∈ q.outstanding ∧ q' = q.endRequest curr uptodate

/-- The slot that the task has taken and not queued yet. -/
def slot (c : Requester) : Option ReqSlot :=
  match c.pc with
  | .fill r | .add r => some r
  | _ => none

/-- The task has found a slot free and not taken it yet. -/
def Window (c : Requester) : Prop := ∃ r, c.pc = .take r

def takes (c : Requester) : Bool :=
  match c.pc with
  | .take _ => true
  | _ => false

theorem takes_iff (c : Requester) : c.takes = true ↔ Window c := by
  obtain ⟨pc, m, rw, b, intr⟩ := c
  cases pc <;> simp [takes, Window]

instance (c : Requester) : Decidable (Window c) := decidable_of_iff _ c.takes_iff

/-- No task is past the start of its call, and the queued requests have slots in use. -/
def Start {τ : Type} (q : Queue) (calls : τ → Requester) : Prop :=
  (∀ t, (calls t).pc = .ahead ∨ (calls t).pc = .done) ∧ ∀ r ∈ q.outstanding, 0 ≤ (q.request r).dev

/-! ### What a statement can do -/

/-- What a statement can do to the slots. -/
inductive Effect (q : Queue) (c : Requester) : Queue → Requester → Prop
  | found {r : ReqSlot} (free : (q.request r).dev < 0) : Effect q c q { c with pc := .take r }
  | take {r : ReqSlot} (takes : c.pc = .take r) :
      Effect q c (q.setRequest r { q.request r with dev := (q.heads c.b).dev.toNat }) { c with pc := .fill r }
  | add {r : ReqSlot} {q' : Queue} (adds : c.pc = .add r) (same : ∀ r, (q'.request r).dev = (q.request r).dev)
      (outstanding : q'.outstanding = insert r q.outstanding) : Effect q c q' { c with pc := .done }
  | other {q' : Queue} {c' : Requester} (same : ∀ r, (q'.request r).dev = (q.request r).dev)
      (outstanding : q'.outstanding = q.outstanding) (slot : c'.slot = c.slot) (outside : ¬ Window c') :
      Effect q c q' c'

theorem addRequest_outstanding {m : Nat} (done : q.addRequest m r = some q') :
    q'.outstanding = insert r q.outstanding := by
  obtain ⟨heads, cleared⟩ := Queue.clearDirt_eq (q.setRequest r { q.request r with next := none }) r
  simp only [Queue.addRequest, cleared] at done
  split at done
  · rw [← Option.some.inj done]
    rfl
  · obtain ⟨tmp, _, result⟩ := Option.bind_eq_some_iff.mp done
    rw [← Option.some.inj result]
    rfl

theorem addRequest_dev {m : Nat} (done : q.addRequest m r = some q') (x : ReqSlot) :
    (q'.request x).dev = (q.request x).dev := by
  by_cases here : x = r
  · obtain ⟨next, same⟩ := Disk.addRequest_request done
    rw [here, same]
  · obtain ⟨next, same⟩ := Disk.addRequest_other here done
    rw [same]

theorem effect_exec (done : exec q c = some (q', c')) : Effect q c q' c' := by
  have outside : ∀ {pc : RequestPc} {m : Nat} {rw : Rw} {b : Addr} {intr : Bool}, (∀ r, pc ≠ .take r) →
      ¬ Window ⟨pc, m, rw, b, intr⟩ := by
    rintro pc m rw b intr other ⟨r, takes⟩
    exact other r takes
  obtain ⟨pc, m, rw, b, intr⟩ := c
  -- one case for each statement of `make_request`
  cases pc with
  | ahead =>
    simp only [exec] at done
    split at done <;> obtain ⟨rfl, rfl⟩ := Prod.mk.inj (Option.some.inj done)
    · exact .other (fun _ => rfl) rfl rfl (outside (by simp))
    · exact .other (fun _ => rfl) rfl rfl (outside (by simp))
  | lock =>
    simp only [exec] at done
    split at done
    · cases done
    · obtain ⟨rfl, rfl⟩ := Prod.mk.inj (Option.some.inj done)
      exact .other (fun _ => rfl) rfl rfl (outside (by simp))
  | test =>
    simp only [exec] at done
    split at done <;> obtain ⟨rfl, rfl⟩ := Prod.mk.inj (Option.some.inj done)
    · exact .other (fun _ => rfl) rfl rfl (outside (by simp))
    · exact .other (fun _ => rfl) rfl rfl (outside (by simp))
  | search slots =>
    cases slots with
    | nil =>
      simp only [exec] at done
      split at done <;> obtain ⟨rfl, rfl⟩ := Prod.mk.inj (Option.some.inj done)
      · exact .other (fun _ => rfl) rfl rfl (outside (by simp))
      · exact .other (fun _ => rfl) rfl rfl (outside (by simp))
    | cons r slots =>
      simp only [exec] at done
      split at done
      next free =>
        obtain ⟨rfl, rfl⟩ := Prod.mk.inj (Option.some.inj done)
        exact .found free
      next =>
        obtain ⟨rfl, rfl⟩ := Prod.mk.inj (Option.some.inj done)
        exact .other (fun _ => rfl) rfl rfl (outside (by simp))
  | asleep =>
    obtain ⟨rfl, rfl⟩ := Prod.mk.inj (Option.some.inj done)
    exact .other (fun _ => rfl) rfl rfl (outside (by simp))
  | take r =>
    obtain ⟨rfl, rfl⟩ := Prod.mk.inj (Option.some.inj done)
    exact .take rfl
  | fill r =>
    obtain ⟨rfl, rfl⟩ := Prod.mk.inj (Option.some.inj done)
    refine .other (fun x => ?_) rfl rfl (outside (by simp))
    rw [Queue.setRequest_request]
    by_cases here : x = r
    · rw [here, Function.update_self]
    · rw [Function.update_of_ne here]
  | add r =>
    obtain ⟨q₁, added, result⟩ := Option.map_eq_some_iff.mp done
    obtain ⟨rfl, rfl⟩ := Prod.mk.inj result
    exact .add rfl (addRequest_dev added) (addRequest_outstanding added)
  | done => cases done

/-! ### Exclusion -/

section Exclusion

variable {τ : Type} {calls : τ → Requester}

/-- The slots in use and those of the tasks; a slot that a task has taken is not queued, and no other task has it. -/
structure Owned (q : Queue) (calls : τ → Requester) : Prop where
  queued : ∀ r ∈ q.outstanding, 0 ≤ (q.request r).dev
  tested : ∀ t r, (calls t).pc = .take r → (q.request r).dev < 0
  taken : ∀ t r, (calls t).slot = some r → 0 ≤ (q.request r).dev ∧ r ∉ q.outstanding
  exclusive : Exclusive slot calls

theorem owned_start (start : Start q calls) : Owned q calls := by
  obtain ⟨begins, queued⟩ := start
  have none : ∀ t, (calls t).slot = none := by
    intro t
    rw [slot]
    rcases begins t with begin | begin <;> rw [begin]
  refine ⟨queued, fun t r takes => ?_, fun t r has => ?_, fun t u r has _ => ?_⟩
  · rcases begins t with begin | begin <;> rw [begin] at takes <;> cases takes
  · rw [none t] at has
    cases has
  · rw [none t] at has
    cases has

/-- The disk completes queued requests only. -/
theorem Owned.endRequest {curr : ReqSlot} (owned : Owned q calls) (member : curr ∈ q.outstanding) (uptodate : Bool) :
    Owned (q.endRequest curr uptodate) calls := by
  have dev : ∀ r, r ≠ curr → ((q.endRequest curr uptodate).request r).dev = (q.request r).dev := by
    intro r other
    obtain ⟨heads, finished⟩ := Queue.finishBuffer_eq q curr uptodate
    rw [Queue.endRequest, finished]
    simp [Queue.setRequest, Function.update_of_ne other]
  have outstanding : (q.endRequest curr uptodate).outstanding = q.outstanding.erase curr := by
    obtain ⟨heads, finished⟩ := Queue.finishBuffer_eq q curr uptodate
    rw [Queue.endRequest, finished]
    rfl
  -- the ended slot is in the list, so nobody tests it or has it
  constructor
  · intro r inside
    rw [outstanding, Finset.mem_erase] at inside
    rw [dev r inside.1]
    exact owned.queued r inside.2
  · intro t r takes
    have other : r ≠ curr := by
      rintro rfl
      exact absurd (owned.queued r member) (not_le.mpr (owned.tested t r takes))
    rw [dev r other]
    exact owned.tested t r takes
  · intro t r has
    obtain ⟨used, absent⟩ := owned.taken t r has
    have other : r ≠ curr := by
      rintro rfl
      exact absent member
    rw [dev r other, outstanding]
    exact ⟨used, fun inside => absent (Finset.mem_of_mem_erase inside)⟩
  · exact owned.exclusive

variable [DecidableEq τ]

/-- The statement of a task that keeps the slots of the others. -/
theorem Owned.update {s : State Queue Requester τ} (owned : Owned s.shared s.places) (alone : Alone Window s)
    (queued : ∀ r ∈ q'.outstanding, 0 ≤ (q'.request r).dev) (tested : ∀ r, c'.pc = .take r → (q'.request r).dev < 0)
    (taken : ∀ r, c'.slot = some r → 0 ≤ (q'.request r).dev ∧ r ∉ q'.outstanding)
    (others : ∀ t r, t ≠ s.running → (s.places t).slot = some r →
      (q'.request r).dev = (s.shared.request r).dev ∧ (r ∈ q'.outstanding → r ∈ s.shared.outstanding) ∧
        c'.slot ≠ some r) :
    Owned q' (Function.update s.places s.running c') := by
  -- the running task has its new slots, every other task what it had
  refine ⟨queued, ?_, ?_, ?_⟩
  · intro t r takes
    by_cases here : t = s.running
    · rw [here, Function.update_self] at takes
      exact tested r takes
    · rw [Function.update_of_ne here] at takes
      exact absurd ⟨r, takes⟩ (alone t here)
  · intro t r has
    by_cases here : t = s.running
    · rw [here, Function.update_self] at has
      exact taken r has
    · rw [Function.update_of_ne here] at has
      obtain ⟨dev, outstanding, _⟩ := others t r here has
      obtain ⟨used, absent⟩ := owned.taken t r has
      rw [dev]
      exact ⟨used, fun inside => absent (outstanding inside)⟩
  · exact owned.exclusive.update fun u r other has has' => (others u r other has').2.2 has

theorem Owned.exec {s : State Queue Requester τ} (owned : Owned s.shared s.places) (alone : Alone Window s)
    (done : Requester.exec s.shared s.place = some (q', c')) :
    Owned q' (Function.update s.places s.running c') := by
  have mine := owned.taken s.running
  -- only the search, the claim and the insertion touch slots
  cases effect_exec done with
  | found free =>
    refine owned.update alone owned.queued ?_ (by simp [slot]) fun t r _ _ => ⟨rfl, id, by simp [slot]⟩
    intro x takes
    obtain rfl := RequestPc.take.inj takes
    exact free
  | @take r takes =>
    have free := owned.tested s.running r takes
    -- a slot that was found free is not in the queue
    have absent : r ∉ s.shared.outstanding := fun inside => absurd (owned.queued r inside) (not_le.mpr free)
    have dev : ∀ x, x ≠ r → ((s.shared.setRequest r { s.shared.request r with
        dev := (s.shared.heads s.place.b).dev.toNat }).request x).dev = (s.shared.request x).dev := by
      intro x other
      rw [Queue.setRequest_request, Function.update_of_ne other]
    refine owned.update alone ?_ (by simp) ?_ ?_
    · intro x inside
      rw [dev x (fun same => absent (same ▸ inside))]
      exact owned.queued x inside
    · intro x has
      obtain rfl := Option.some.inj has
      rw [Queue.setRequest_request, Function.update_self]
      exact ⟨Int.natCast_nonneg _, absent⟩
    · intro t x _ has
      have other : x ≠ r := by
        rintro rfl
        exact absurd (owned.taken t x has).1 (not_le.mpr free)
      refine ⟨dev x other, id, fun has' => other ?_⟩
      exact (Option.some.inj has').symm
  | @add r _ adds same outstanding =>
    -- the inserted slot is the own one, which no other task has
    have own : s.place.slot = some r := by rw [slot, adds]
    refine owned.update alone ?_ (by simp) (by simp [slot]) ?_
    · intro x inside
      rw [outstanding, Finset.mem_insert] at inside
      rw [same]
      rcases inside with rfl | inside
      · exact (mine x own).1
      · exact owned.queued x inside
    · intro t x other has
      refine ⟨same x, fun inside => ?_, by simp [slot]⟩
      rw [outstanding, Finset.mem_insert] at inside
      refine inside.resolve_left fun here => other ?_
      rw [here] at has
      exact owned.exclusive t s.running r has own
  | other same outstanding slot outside =>
    refine owned.update alone ?_ (fun r takes => absurd ⟨r, takes⟩ outside) ?_ ?_
    · rw [outstanding]
      intro r inside
      rw [same]
      exact owned.queued r inside
    · intro r has
      rw [same, outstanding]
      exact mine r (slot.symm.trans has)
    · intro t r other has
      refine ⟨same r, fun inside => outstanding ▸ inside, fun has' => other ?_⟩
      exact owned.exclusive t s.running r has (slot.symm.trans has')

/-- A task begins its next call outside the window, and without a slot. -/
theorem Owned.call {s : State Queue Requester τ} (owned : Owned s.shared s.places) (alone : Alone Window s)
    (begins : c'.pc = .ahead) : Owned s.shared (Function.update s.places s.running c') := by
  have none : c'.slot = none := by rw [slot, begins]
  refine owned.update alone owned.queued (by simp [begins]) (by simp [none]) fun t r _ _ => ⟨rfl, id, by simp [none]⟩

/-- Where no tick comes between the test of a slot and the store behind it, no
two tasks get the same slot. -/
theorem exclusive_of_calm {hist : List (State Queue Requester τ × Event)} {s : State Queue Requester τ}
    (run : Transition.Run (system code Start) hist s) (calm : ∀ x ∈ hist, Calm Window x) :
    Exclusive slot s.places := by
  have owned : Owned s.shared s.places := by
    apply invariant (G := fun _ => True) (W := Window) _ _ _ _ _ run (fun _ _ => trivial) calm
    · rintro q c asleep ⟨r, takes⟩
      rcases asleep with asleep | ⟨locks, _⟩
      · rw [takes] at asleep
        cases asleep
      · rw [takes] at locks
        cases locks
    · intro q calls start
      refine ⟨owned_start start, fun t ⟨r, takes⟩ => ?_⟩
      rcases start.1 t with begin | begin <;> rw [begin] at takes <;> cases takes
    · exact fun s q c owned alone _ done => owned.exec alone done
    · exact fun s c owned alone called => owned.call alone called.2
    · rintro s q owned ⟨curr, uptodate, member, rfl⟩
      exact owned.endRequest member uptodate
  exact owned.exclusive

end Exclusion

end Requester

end OperatorSystem.Blk
