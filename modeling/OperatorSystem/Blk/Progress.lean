import OperatorSystem.Blk.Elevator
import OperatorSystem.Blk.Geometry
import OperatorSystem.Blk.Retries
import OperatorSystem.Blk.Transfer

/-!
# The progress of a request

The place of the driver in a request is kept in three of its fields, which the
handlers of reads and writes update at different moments, and an error can
restart the request between any two sectors. The handlers and the rounds of
`harddiskRequest` are cut here at their calls of `harddiskRequest` and
`endRequest`. The main result `onCourse_of_run` says where the three fields are
after any interrupts, until the first call of `endRequest` for the request.
-/

namespace OperatorSystem.Blk

open OperatorSystem.Fs

namespace Disk

/-! ### The driver in pieces -/

/-- Why the driver calls `endRequest`. -/
inductive Cause
  | transferred
  | errors
  | range
  deriving DecidableEq

/-- Where a piece of the driver stops. -/
inductive Place
  /-- The driver has returned. -/
  | waiting
  /-- At `repeat` of `harddiskRequest`. -/
  | atRepeat
  /-- Before a call of `endRequest`. -/
  | ending (c : Cause)
  deriving DecidableEq

/-- `badRwIntr` up to its call of `endRequest`. -/
def bad (s : Disk) (curr : ReqSlot) : Disk × Place :=
  let errors := (s.queue.request curr).errors + 1
  let s := s.setRequest curr { s.queue.request curr with errors }
  if errors ≥ maxErrors then (s, .ending .errors)
  else (if errors > maxErrors / 2 then { s with reset := true } else s, .atRepeat)

/-- A handler up to its call of `harddiskRequest` or `endRequest`. -/
def serve (h : Handler) (curr : ReqSlot) (s : Disk) : Disk × Place :=
  let (failed, s) := s.winResult
  if failed then s.bad curr
  else
    match h with
    | .readIntr =>
      let s := s.portRead (s.queue.request curr).buffer 256
      let q := s.queue.request curr
      let s := s.setRequest curr { q with
        errors := 0, buffer := q.buffer + 512, sector := q.sector + 1, nrSectors := q.nrSectors - 1 }
      if (s.queue.request curr).nrSectors ≠ 0 then ({ s with deviceIntr := some .readIntr }, .waiting)
      else (s, .ending .transferred)
    | .writeIntr =>
      let q := s.queue.request curr
      let s := s.setRequest curr { q with nrSectors := q.nrSectors - 1 }
      if (s.queue.request curr).nrSectors ≠ 0 then
        let q := s.queue.request curr
        let s := s.setRequest curr { q with sector := q.sector + 1, buffer := q.buffer + 512 }
        let s := { s with deviceIntr := some .writeIntr }
        (s.portWrite hdData (s.queue.request curr).buffer 256, .waiting)
      else (s, .ending .transferred)
    | .recalIntr => (s, .atRepeat)

/-- One round of `harddiskRequest`. -/
def round (curr : ReqSlot) (s : Disk) : Option (Disk × Place) :=
  match s.decision curr with
  | .reject => some (s, .ending .range)
  | .divideError => none
  | .resetDrive nr => ({ s with reset := false, recalibrate := true }.resetHd nr).map fun s => (s, .waiting)
  | .recalibrateDrive drive =>
    ({ s with recalibrate := false }.hdOut drive s.info.sector 0 0 0 winRestore .recalIntr).map
      fun s => (s, .waiting)
  | .transfer t =>
    if t.write then do
      let s ← s.hdOut t.drive t.nsect t.sec t.head t.cyl winWrite .writeIntr
      let (r, s) := drqLoop 3000 s
      if r then return (s.portWrite hdData (s.queue.request curr).buffer 256, .waiting) else return s.bad curr
    else (s.hdOut t.drive t.nsect t.sec t.head t.cyl winRead .readIntr).map fun s => (s, .waiting)
  | .unknownCommand => some (s, .waiting)

/-- The rest of a call, from the place where a piece has stopped. -/
def resume (fuel : Nat) (curr : ReqSlot) : Disk × Place → Option Disk
  | (s, .waiting) => some s
  | (s, .atRepeat) => harddiskRequestLoop curr fuel s
  | (s, .ending .transferred) => (s.endRequest true).bind (harddiskRequestLoop curr fuel)
  | (s, .ending .errors) => (s.endRequest false).bind fun s =>
    harddiskRequestLoop curr fuel
      (if (s.queue.request curr).errors > maxErrors / 2 then { s with reset := true } else s)
  | (s, .ending .range) => (s.endRequest false).bind (harddiskRequestLoop curr fuel)

section Pieces

variable {curr : ReqSlot} {s : Disk}

theorem bad_resume (head : s.current = some curr) (fuel : Nat) :
    s.badRwIntr.bind (harddiskRequestLoop curr fuel) = resume fuel curr (s.bad curr) := by
  have raised : (s.setRequest curr { s.queue.request curr with
      errors := (s.queue.request curr).errors + 1 }).current = some curr := head
  have counted : (((s.setRequest curr { s.queue.request curr with
      errors := (s.queue.request curr).errors + 1 }).queue.request curr).errors) =
      (s.queue.request curr).errors + 1 := by
    simp [setRequest, Queue.setRequest]
  by_cases last : (s.queue.request curr).errors + 1 ≥ maxErrors
  · have stopped : s.bad curr = (_, .ending .errors) := if_pos last
    rw [stopped]
    simp only [badRwIntr, head, countError, if_pos last, resume, Option.bind_eq_bind, Option.bind_some,
      Option.bind_assoc, Option.pure_def]
  · have goesOn : s.bad curr = (_, .atRepeat) := if_neg last
    rw [goesOn]
    simp only [badRwIntr, head, countError, if_neg last, resume, Option.bind_eq_bind, Option.bind_some,
      Option.pure_def, counted]

theorem harddiskRequest_head (head : s.current = some curr) (fuel : Nat) :
    s.harddiskRequest fuel = harddiskRequestLoop curr fuel s := by
  rw [harddiskRequest, head]

/-- `badRwIntr` and `harddiskRequest` from a handler are those of a round. -/
theorem badRwIntr_again (head : s.current = some curr) (fuel : Nat) :
    s.badRwIntr.bind (harddiskRequest fuel) = resume fuel curr (s.bad curr) := by
  rw [← bad_resume head]
  refine Option.bind_congr fun s' done => ?_
  exact harddiskRequest_head ((badRwIntr_follows head done).current.trans head) fuel

theorem endRequest_again (head : s.current = some curr) (uptodate : Bool) (fuel : Nat) :
    (s.endRequest uptodate).bind (harddiskRequest fuel) =
      (s.endRequest uptodate).bind (harddiskRequestLoop curr fuel) := by
  refine Option.bind_congr fun s' done => ?_
  exact harddiskRequest_head ((endRequest_follows head done).current.trans head) fuel

theorem winResult_current : s.winResult.2.current = s.current := by
  rw [current, (winResult_data s).queue]
  rfl

/-- A handler is its piece and what follows it. -/
theorem run_serve (head : s.current = some curr) (h : Handler) (fuel : Nat) :
    h.run fuel s = resume fuel curr (serve h curr s) := by
  have still : s.winResult.2.current = some curr := winResult_current.trans head
  -- an error goes the same way in every handler
  by_cases failed : s.winResult.1 = true
  · have stopped : serve h curr s = s.winResult.2.bad curr := if_pos failed
    rw [stopped, ← badRwIntr_again still]
    cases h with
    | readIntr => simp only [Handler.run, readIntr, head, failed, if_true, Option.bind_eq_bind, Option.bind_some]
    | writeIntr => simp only [Handler.run, writeIntr, head, failed, if_true, Option.bind_eq_bind, Option.bind_some]
    | recalIntr => simp only [Handler.run, recalIntr, failed, if_true]
  · cases h with
    | readIntr =>
      simp only [Handler.run, readIntr, serve, head, failed, if_false, Option.bind_eq_bind, Option.bind_some,
        Bool.false_eq_true]
      split
      · rfl
      · refine endRequest_again ?_ true fuel
        have queue := (insw_data 256 s.winResult.2 (s.winResult.2.queue.request curr).buffer).2.1
        simp only [setRequest, current, Queue.setRequest_blkDev, portRead, queue]
        exact still
    | writeIntr =>
      simp only [Handler.run, writeIntr, serve, head, failed, if_false, Option.bind_eq_bind, Option.bind_some,
        Bool.false_eq_true]
      split
      · rfl
      · refine endRequest_again ?_ true fuel
        simp only [setRequest, current, Queue.setRequest_blkDev]
        exact still
    | recalIntr =>
      simp only [Handler.run, recalIntr, serve, failed, if_false, Bool.false_eq_true]
      exact harddiskRequest_head still fuel

/-- A call of `harddiskRequest` is its rounds. -/
theorem loop_round (head : s.current = some curr) (fuel : Nat) :
    harddiskRequestLoop curr (fuel + 1) s = (s.round curr).bind (resume fuel curr) := by
  cases decided : s.decision curr with
  | reject => simp only [harddiskRequestLoop, round, decided, Option.bind_some, resume]
  | divideError => simp only [harddiskRequestLoop, round, decided, Option.bind_none]
  | resetDrive nr =>
    simp only [harddiskRequestLoop, round, decided, Option.bind_map]
    exact (Option.bind_fun_some _).symm
  | recalibrateDrive drive =>
    simp only [harddiskRequestLoop, round, decided, Option.bind_map]
    exact (Option.bind_fun_some _).symm
  | transfer t =>
    simp only [harddiskRequestLoop, round, decided]
    split
    · cases issued : s.hdOut t.drive t.nsect t.sec t.head t.cyl winWrite .writeIntr with
      | none => rfl
      | some s₁ =>
        have still : (drqLoop 3000 s₁).2.current = some curr := by
          rw [current, waited_queue issued]
          exact head
        simp only [Option.bind_eq_bind, Option.bind_some]
        split
        · rfl
        · rw [bad_resume still]
          rfl
    · rw [Option.bind_map]
      exact (Option.bind_fun_some _).symm
  | unknownCommand => simp only [harddiskRequestLoop, round, decided, Option.bind_some, resume]

/-! ### What a piece does with the request -/

/-- Only the number of errors changes, and the driver gives up after `maxErrors` of them. -/
structure Restarted (curr : ReqSlot) (s s' : Disk) (p : Place) : Prop where
  errors : ∃ errors, s'.queue = s.queue.setRequest curr { s.queue.request curr with errors } ∧
    (p = .ending .errors → maxErrors ≤ errors)
  transferred : p ≠ .ending .transferred

/-- The queue is the same. -/
theorem Restarted.of_queue {s' : Disk} {p : Place} (same : s'.queue = s.queue) (errors : p ≠ .ending .errors)
    (transferred : p ≠ .ending .transferred) : Restarted curr s s' p := by
  refine ⟨⟨(s.queue.request curr).errors, ?_, fun h => absurd h errors⟩, transferred⟩
  rw [same, Queue.setRequest, Function.update_eq_self]

theorem Restarted.congr {s₁ s' : Disk} {p : Place} (restarted : Restarted curr s₁ s' p)
    (same : s₁.queue = s.queue) : Restarted curr s s' p := by
  obtain ⟨⟨errors, queue, last⟩, transferred⟩ := restarted
  rw [same] at queue
  exact ⟨⟨errors, queue, last⟩, transferred⟩

theorem bad_spec : (s.bad curr).1.queue = s.queue.setRequest curr
      { s.queue.request curr with errors := (s.queue.request curr).errors + 1 } ∧
    ((s.bad curr).2 = .ending .errors ∧ (s.queue.request curr).errors + 1 ≥ maxErrors ∨
      (s.bad curr).2 = .atRepeat) := by
  by_cases last : (s.queue.request curr).errors + 1 ≥ maxErrors
  · have stopped : s.bad curr = (_, .ending .errors) := if_pos last
    rw [stopped]
    exact ⟨rfl, Or.inl ⟨rfl, last⟩⟩
  · have goesOn : s.bad curr = (_, .atRepeat) := if_neg last
    rw [goesOn]
    refine ⟨?_, Or.inr rfl⟩
    dsimp only
    split
    · rfl
    · rfl

theorem bad_restarted : Restarted curr s (s.bad curr).1 (s.bad curr).2 ∧
    (s.bad curr).2 ≠ .ending .range := by
  obtain ⟨queue, ⟨place, last⟩ | place⟩ : (s.bad curr).1.queue = _ ∧ _ := bad_spec
  · exact ⟨⟨⟨_, queue, fun _ => last⟩, by simp [place]⟩, by simp [place]⟩
  · exact ⟨⟨⟨_, queue, by simp [place]⟩, by simp [place]⟩, by simp [place]⟩

theorem resetController_queue : s.resetController.queue = s.queue := by
  obtain ⟨_, _, _, result⟩ := resetController_settled s
  rw [result]

/-- The interrupt acknowledges a sector. -/
def Good (h : Handler) (s : Disk) : Prop := h ≠ .recalIntr ∧ s.winResult.1 = false

theorem serve_restarted {h : Handler} (notGood : ¬ Good h s) :
    Restarted curr s (serve h curr s).1 (serve h curr s).2 ∧ (serve h curr s).2 ≠ .ending .range := by
  have same := (winResult_data s).queue
  unfold serve
  dsimp only
  split
  next failed => exact ⟨bad_restarted.1.congr same, bad_restarted.2⟩
  next passed =>
    cases h with
    | readIntr => exact absurd ⟨by simp, by simpa using passed⟩ notGood
    | writeIntr => exact absurd ⟨by simp, by simpa using passed⟩ notGood
    | recalIntr => exact ⟨.of_queue same (by simp) (by simp), by simp⟩

/-- A good status for a sector that is not the last one moves the request on. -/
theorem serve_moves {h : Handler} (good : Good h s) (more : (s.queue.request curr).nrSectors - 1 ≠ 0) :
    (serve h curr s).2 = .waiting ∧ ∃ errors, (serve h curr s).1.queue =
      s.queue.setRequest curr { s.queue.request curr with
        errors
        buffer := (s.queue.request curr).buffer + 512
        sector := (s.queue.request curr).sector + 1
        nrSectors := (s.queue.request curr).nrSectors - 1 } := by
  have same := (winResult_data s).queue
  have passed : ¬ s.winResult.1 = true := by simp [good.2]
  have double : ∀ (q q' : Request), (s.queue.setRequest curr q).setRequest curr q' = s.queue.setRequest curr q' := by
    intro q q'
    simp [Queue.setRequest]
  -- only the two transfers can move the request
  cases h with
  | recalIntr => exact absurd rfl good.1
  | readIntr =>
    have read := (insw_data 256 s.winResult.2 (s.queue.request curr).buffer).2.1
    simp only [serve, if_neg passed, setRequest, portRead, same, read, Queue.setRequest_request,
      Function.update_self, if_pos more]
    exact ⟨trivial, 0, rfl⟩
  | writeIntr =>
    simp only [serve, if_neg passed, setRequest, same, Queue.setRequest_request, Function.update_self,
      if_pos more]
    refine ⟨trivial, (s.queue.request curr).errors, ?_⟩
    rw [(portWrite_data _ _ 256).2.1]
    exact double _ _

/-- A good status for the last sector. -/
theorem serve_last {h : Handler} (good : Good h s) (last : (s.queue.request curr).nrSectors - 1 = 0) :
    (serve h curr s).2 = .ending .transferred ∧
      ∃ q, (serve h curr s).1.queue = s.queue.setRequest curr q ∧ q.nrSectors = 0 := by
  have same := (winResult_data s).queue
  have passed : ¬ s.winResult.1 = true := by simp [good.2]
  cases h with
  | recalIntr => exact absurd rfl good.1
  | readIntr =>
    have read := (insw_data 256 s.winResult.2 (s.queue.request curr).buffer).2.1
    simp only [serve, if_neg passed, setRequest, portRead, same, read, Queue.setRequest_request,
      Function.update_self, if_neg (not_not.mpr last)]
    exact ⟨trivial, _, rfl, last⟩
  | writeIntr =>
    simp only [serve, if_neg passed, setRequest, same, Queue.setRequest_request, Function.update_self,
      if_neg (not_not.mpr last)]
    exact ⟨trivial, _, rfl, last⟩

theorem round_restarted {s' : Disk} {p : Place} (done : s.round curr = some (s', p)) :
    Restarted curr s s' p ∧ (p = .ending .range → s' = s ∧ s.decision curr = .reject) := by
  -- a round ends the request, starts it over or waits for the drive
  cases decided : s.decision curr with
  | reject =>
    simp only [round, decided, Option.some.injEq, Prod.mk.injEq] at done
    obtain ⟨rfl, rfl⟩ := done
    exact ⟨.of_queue rfl (by simp) (by simp), fun _ => ⟨rfl, rfl⟩⟩
  | divideError => simp [round, decided] at done
  | resetDrive nr =>
    simp only [round, decided, Option.map_eq_some_iff, Prod.mk.injEq] at done
    obtain ⟨s₁, issued, rfl, rfl⟩ := done
    refine ⟨.of_queue ?_ (by simp) (by simp), by simp⟩
    exact (hdOut_queue issued).trans resetController_queue
  | recalibrateDrive drive =>
    simp only [round, decided, Option.map_eq_some_iff, Prod.mk.injEq] at done
    obtain ⟨s₁, issued, rfl, rfl⟩ := done
    have queue := hdOut_queue issued
    exact ⟨.of_queue queue (by simp) (by simp), by simp⟩
  | transfer t =>
    simp only [round, decided] at done
    split at done
    · obtain ⟨s₁, issued, rest⟩ := Option.bind_eq_some_iff.mp done
      have queue := waited_queue issued
      split at rest
      · simp only [Option.pure_def, Option.some.injEq, Prod.mk.injEq] at rest
        obtain ⟨rfl, rfl⟩ := rest
        refine ⟨.of_queue ?_ (by simp) (by simp), by simp⟩
        rw [(portWrite_data _ _ 256).2.1, queue]
      · have result : (drqLoop 3000 s₁).2.bad curr = (s', p) := Option.some.inj rest
        obtain ⟨restarted, inRange⟩ : Restarted curr (drqLoop 3000 s₁).2 _ _ ∧ _ := bad_restarted
        rw [result] at restarted inRange
        exact ⟨restarted.congr queue, fun range => absurd range inRange⟩
    · simp only [Option.map_eq_some_iff, Prod.mk.injEq] at done
      obtain ⟨s₁, issued, rfl, rfl⟩ := done
      exact ⟨.of_queue (hdOut_queue issued) (by simp) (by simp), by simp⟩
  | unknownCommand =>
    simp only [round, decided, Option.some.injEq, Prod.mk.injEq] at done
    obtain ⟨rfl, rfl⟩ := done
    exact ⟨.of_queue rfl (by simp) (by simp), by simp⟩

end Pieces

/-! ### Runs -/

inductive Action
  /-- The rest of the kernel, or the driver at work on another request. -/
  | other
  /-- `addRequest` calls `harddiskRequest`. -/
  | call
  | irq (h : Handler)
  | round

/-- Any interrupt may run any of the handlers; a run ends before `endRequest`. -/
inductive Progresses (curr : ReqSlot) : Disk × Place → Action → Disk × Place → Prop
  | other {s s' : Disk} {p : Place} (before : ∀ c, p ≠ .ending c)
      (request : ∃ next, s'.queue.request curr = { s.queue.request curr with next }) :
      Progresses curr (s, p) .other (s', p)
  | call {s : Disk} (head : s.current = some curr) : Progresses curr (s, .waiting) .call (s, .atRepeat)
  | irq {s : Disk} {h : Handler} (head : s.current = some curr) :
      Progresses curr (s, .waiting) (.irq h) (serve h curr s)
  | round {s : Disk} {x : Disk × Place} (head : s.current = some curr) (done : s.round curr = some x) :
      Progresses curr (s, .atRepeat) .round x

/-- `makeRequest` has made the request in the slot `curr` for the block of the buffer `b`. -/
def Fresh (curr : ReqSlot) (block : BitVec 32) (data : Addr) (x : Disk × Place) : Prop :=
  x.2 = .waiting ∧ ∃ (q : Queue) (m : Nat) (rw : Rw) (b : Addr), (q.heads b).blockNr = block ∧
    (q.heads b).data = data ∧ ((Queue.searched rw).find? fun r => (q.request r).dev < 0) = some curr ∧
    q.makeRequestRepeat m rw b = some x.1.queue

def progress (curr : ReqSlot) (block : BitVec 32) (data : Addr) : Transition.System (Disk × Place) Action where
  init := Fresh curr block data
  step := Progresses curr

/-- The step acknowledges a sector. -/
def Acknowledges (x : (Disk × Place) × Action) : Prop := ∃ h, x.2 = .irq h ∧ Good h x.1.1

instance (h : Handler) (s : Disk) : Decidable (Good h s) :=
  inferInstanceAs (Decidable (_ ∧ _))

instance : DecidablePred Acknowledges := fun x =>
  match same : x.2 with
  | .irq h => decidable_of_iff (Good h x.1.1) ⟨fun good => ⟨h, same, good⟩, by
      rintro ⟨h', again, good⟩
      cases same.symm.trans again
      exact good⟩
  | .other => .isFalse (by rintro ⟨h, again, _⟩; cases same.symm.trans again)
  | .call => .isFalse (by rintro ⟨h, again, _⟩; cases same.symm.trans again)
  | .round => .isFalse (by rintro ⟨h, again, _⟩; cases same.symm.trans again)

/-- The number of sectors acknowledged so far. -/
def acknowledged (hist : List ((Disk × Place) × Action)) : Nat := hist.countP fun x => Acknowledges x

/-- Where the request is after `t` sectors. -/
structure Position (block : BitVec 32) (data : Addr) (t : Nat) (q : Request) : Prop where
  early : t < 2
  left : q.nrSectors.toNat = 2 - t
  sector : q.sector.toNat = 2 * block.toNat + t
  buffer : q.buffer = data + 512 * t

/-- What holds at every point of a run, with `t` sectors acknowledged. -/
structure Advanced (curr : ReqSlot) (block : BitVec 32) (data : Addr) (t : Nat) (x : Disk × Place) : Prop where
  position : x.2 ≠ .ending .transferred → Position block data t (x.1.queue.request curr)
  transferred : x.2 = .ending .transferred → t = 2 ∧ (x.1.queue.request curr).nrSectors = 0
  errors : x.2 = .ending .errors → maxErrors ≤ (x.1.queue.request curr).errors
  range : x.2 = .ending .range → x.1.decision curr = .reject

section Runs

variable {curr : ReqSlot} {block : BitVec 32} {data : Addr} {t : Nat} {x x' : Disk × Place}

theorem Position.congr {q q' : Request} (position : Position block data t q) (left : q'.nrSectors = q.nrSectors)
    (sector : q'.sector = q.sector) (buffer : q'.buffer = q.buffer) : Position block data t q' :=
  ⟨position.early, left ▸ position.left, sector ▸ position.sector, buffer ▸ position.buffer⟩

/-- A fresh request stands before its first sector. -/
theorem Fresh.advanced (small : block.toNat < 2 ^ 31) (fresh : Fresh curr block data x) :
    Advanced curr block data 0 x := by
  obtain ⟨place, q, m, rw, b, isBlock, isData, free, done⟩ := fresh
  simp only [Queue.makeRequestRepeat, free] at done
  obtain ⟨next, queued⟩ := addRequest_request done
  simp only [Queue.setRequest_request, Function.update_self] at queued
  refine ⟨fun _ => ?_, by simp [place], by simp [place], by simp [place]⟩
  rw [queued]
  refine ⟨by decide, rfl, ?_, isData⟩
  change ((q.heads b).blockNr <<< 1).toNat = _
  rw [isBlock, BitVec.toNat_shiftLeft, Nat.shiftLeft_eq]
  omega

/-- A restart leaves the request where it is. -/
theorem Advanced.restart {s s' : Disk} {p p' : Place} (advanced : Advanced curr block data t (s, p))
    (before : p ≠ .ending .transferred) (restarted : Restarted curr s s' p')
    (range : p' = .ending .range → s'.decision curr = .reject) : Advanced curr block data t (s', p') := by
  obtain ⟨⟨errors, queue, last⟩, transferred⟩ := restarted
  have same : s'.queue.request curr = { s.queue.request curr with errors } := by
    rw [queue]
    simp
  refine ⟨fun _ => ?_, fun h => absurd h transferred, fun h => ?_, range⟩
  · rw [same]
    exact (advanced.position before).congr rfl rfl rfl
  · rw [same]
    exact last h

/-- One step, with one more sector if it acknowledges one. -/
theorem Advanced.step {a : Action} (advanced : Advanced curr block data t x)
    (taken : Progresses curr x a x') :
    Advanced curr block data (t + if Acknowledges (x, a) then 1 else 0) x' := by
  -- only an interrupt that was good moves the request forward
  cases taken with
  | @other s s' p before request =>
    have quiet : ¬ Acknowledges ((s, p), .other) := by simp [Acknowledges]
    rw [if_neg quiet]
    obtain ⟨next, same⟩ := request
    refine ⟨fun _ => ?_, fun h => absurd h (before _), fun h => absurd h (before _), fun h => absurd h (before _)⟩
    rw [same]
    exact (advanced.position (before _)).congr rfl rfl rfl
  | @call s head =>
    have quiet : ¬ Acknowledges ((s, .waiting), .call) := by simp [Acknowledges]
    rw [if_neg quiet]
    exact ⟨fun _ => advanced.position (by simp), by simp, by simp, by simp⟩
  | @round s x head done =>
    have quiet : ¬ Acknowledges ((s, .atRepeat), .round) := by simp [Acknowledges]
    rw [if_neg quiet]
    have result : s.round curr = some (x'.1, x'.2) := done
    obtain ⟨restarted, range⟩ := round_restarted result
    refine advanced.restart (by simp) restarted fun h => ?_
    obtain ⟨same, rejected⟩ := range h
    rw [same]
    exact rejected
  | @irq s h head =>
    have position := advanced.position (by simp)
    have ack : Acknowledges ((s, .waiting), .irq h) ↔ Good h s := by simp [Acknowledges]
    by_cases good : Good h s
    · rw [if_pos (ack.mpr good)]
      have early := position.early
      have left := position.left
      have one : (1 : BitVec 32).toNat = 1 := rfl
      have count : ((s.queue.request curr).nrSectors - 1).toNat = 2 - (t + 1) := by
        rw [BitVec.toNat_sub, one, left]
        omega
      -- the last sector ends the request; any other one moves it by a sector
      by_cases more : (s.queue.request curr).nrSectors - 1 = 0
      · obtain ⟨place, q, queue, empty⟩ := serve_last good more
        rw [more] at count
        have zero : (0 : BitVec 32).toNat = 0 := rfl
        refine ⟨fun h => absurd place h, fun _ => ⟨by omega, ?_⟩, by simp [place], by simp [place]⟩
        rw [queue]
        simpa using empty
      · obtain ⟨place, errors, queue⟩ := serve_moves good more
        refine ⟨fun _ => ?_, by simp [place], by simp [place], by simp [place]⟩
        have still : t + 1 < 2 := by
          by_contra late
          apply more
          apply BitVec.eq_of_toNat_eq
          rw [count]
          simp
          omega
        rw [queue]
        simp only [Queue.setRequest_request, Function.update_self]
        refine ⟨still, count, ?_, ?_⟩
        · have sector := position.sector
          simp only [BitVec.toNat_add, one, sector]
          omega
        · change (s.queue.request curr).buffer + 512 = _
          rw [position.buffer, Nat.mul_succ, Nat.add_assoc]
    · rw [if_neg (mt ack.mp good)]
      obtain ⟨restarted, inRange⟩ : Restarted curr s _ _ ∧ _ := serve_restarted good
      exact advanced.restart (by simp) restarted fun h => absurd h inRange

theorem advanced_of_run {hist : List ((Disk × Place) × Action)} (small : block.toNat < 2 ^ 31)
    (run : Transition.Run (progress curr block data) hist x) :
    Advanced curr block data (acknowledged hist) x := by
  induction run with
  | init start => exact Fresh.advanced small start
  | @step hist x x' a run taken ih =>
    have count : acknowledged ((x, a) :: hist) = acknowledged hist + if Acknowledges (x, a) then 1 else 0 := by
      simp [acknowledged, List.countP_cons]
    rw [count]
    exact ih.step taken

/-- After `t` acknowledged sectors the request stands at its sector `t`, and so
does every command issued for it. It is ended as transferred after two sectors
only, and as failed after `maxErrors` errors or out of range only. -/
theorem onCourse_of_run {hist : List ((Disk × Place) × Action)} (small : block.toNat < 2 ^ 31)
    (run : Transition.Run (progress curr block data) hist x) :
    (acknowledged hist ≤ 2 ∧ (x.1.queue.request curr).nrSectors.toNat = 2 - acknowledged hist) ∧
    (x.2 ≠ .ending .transferred → Position block data (acknowledged hist) (x.1.queue.request curr)) ∧
    (∀ tr, x.2 = .atRepeat → x.1.decision curr = .transfer tr →
      firstSector x.1.info tr = (x.1.absoluteSector curr).toNat ∧ tr.nsect.toNat = 2 - acknowledged hist) ∧
    (x.2 = .ending .transferred → acknowledged hist = 2) ∧
    (x.2 = .ending .errors → maxErrors ≤ (x.1.queue.request curr).errors) ∧
    (x.2 = .ending .range → x.1.decision curr = .reject) := by
  have advanced := advanced_of_run small run
  -- every part is read off the invariant of the run
  refine ⟨?_, advanced.position, fun tr place decided => ?_, fun h => (advanced.transferred h).1,
    advanced.errors, advanced.range⟩
  · by_cases ending : x.2 = .ending .transferred
    · obtain ⟨two, empty⟩ := advanced.transferred ending
      rw [two, empty]
      exact ⟨le_rfl, rfl⟩
    · have position := advanced.position ending
      exact ⟨position.early.le, position.left⟩
  · refine ⟨transfer_firstSector decided, ?_⟩
    rw [(decision_transfer decided).2.2.1]
    exact (advanced.position (by simp [place])).left

end Runs

/-! ### What else happens meanwhile -/

section Others

variable {curr other : ReqSlot}

/-- `addRequest` changes only links of the other requests. -/
theorem addRequest_other {q q' : Queue} {m : Nat} {req r : ReqSlot} (apart : r ≠ req)
    (done : q.addRequest m req = some q') : ∃ next, q'.request r = { q.request r with next } := by
  obtain ⟨heads, prepared⟩ := Queue.queued_eq q req
  have same : (q.queued req).request r = q.request r := by
    rw [prepared]
    simp [apart]
  cases headed : ((q.queued req).blkDev m).currentRequest with
  | none =>
    rw [Queue.addRequest_first headed] at done
    rw [← Option.some.inj done]
    exact ⟨(q.request r).next, same⟩
  | some first =>
    rw [Queue.addRequest_headed headed] at done
    obtain ⟨tmp, _, result⟩ := Option.bind_eq_some_iff.mp done
    rw [← Option.some.inj result]
    by_cases here : r = tmp
    · subst here
      exact ⟨some req, by simp [apart, same]⟩
    · exact ⟨(q.request r).next, by simp [apart, here, same]⟩

/-- A new request takes a free slot, so those in use keep theirs. -/
theorem makeRequestRepeat_other {q q' : Queue} {m : Nat} {rw : Rw} {b : Addr} (used : 0 ≤ (q.request curr).dev)
    (done : q.makeRequestRepeat m rw b = some q') : ∃ next, q'.request curr = { q.request curr with next } := by
  unfold Queue.makeRequestRepeat at done
  split at done
  · split at done
    · exact ⟨(q.request curr).next, by rw [← Option.some.inj done]; rfl⟩
    · exact ⟨(q.request curr).next, by rw [← Option.some.inj done]⟩
  next req found =>
    have free := List.find?_some found
    simp only [decide_eq_true_eq] at free
    have apart : curr ≠ req := by
      rintro rfl
      omega
    obtain ⟨next, queued⟩ := addRequest_other apart done
    simp only [Queue.setRequest_request, Function.update_of_ne apart] at queued
    exact ⟨next, queued⟩

/-- A piece works on the request at the head only. -/
theorem serve_other (apart : curr ≠ other) {s : Disk} (h : Handler) : (∃ q, (serve h other s).1.queue =
    s.queue.setRequest other q) ∧ (serve h other s).1.queue.request curr = s.queue.request curr := by
  have only : ∃ q, (serve h other s).1.queue = s.queue.setRequest other q := by
    by_cases good : Good h s
    · by_cases more : (s.queue.request other).nrSectors - 1 = 0
      · obtain ⟨_, q, queue, _⟩ := serve_last good more
        exact ⟨q, queue⟩
      · obtain ⟨_, errors, queue⟩ := serve_moves good more
        exact ⟨_, queue⟩
    · obtain ⟨⟨⟨errors, queue, _⟩, _⟩, _⟩ : Restarted other s _ _ ∧ _ := serve_restarted good
      exact ⟨_, queue⟩
  refine ⟨only, ?_⟩
  obtain ⟨q, queue⟩ := only
  rw [queue]
  simp [apart]

/-- The driver does not return from a call of `endRequest`. -/
theorem resume_ending {s : Disk} {c : Cause} {fuel : Nat} (head : s.current = some other) :
    resume fuel other (s, .ending c) = none := by
  -- the list does not move on, so the loop finds the ended request again
  have never : ∀ (uptodate : Bool) (k : Disk → Disk), (∀ s, (k s).queue = s.queue) →
      ((s.endRequest uptodate).bind fun s => harddiskRequestLoop other fuel (k s)) = none := by
    intro uptodate k same
    obtain ⟨s₁, ended, dead⟩ := endRequest_some head uptodate
    have still : (k s₁).current = some other := by
      rw [current, same]
      exact (endRequest_follows head ended).current.trans head
    rw [ended, Option.bind_some]
    exact ended_loop still (by rw [same]; exact dead)
  cases c with
  | transferred => exact never true id fun _ => rfl
  | range => exact never false id fun _ => rfl
  | errors =>
    refine never false (fun s => if (s.queue.request other).errors > maxErrors / 2 then
      { s with reset := true } else s) fun s => ?_
    split
    · rfl
    · rfl

/-- The driver at work on another request leaves this one alone. -/
theorem resume_other {x : Disk × Place} {s' : Disk} {fuel : Nat} (apart : curr ≠ other)
    (head : x.1.current = some other) (done : resume fuel other x = some s') :
    s'.queue.request curr = x.1.queue.request curr := by
  induction fuel generalizing x with
  | zero =>
    obtain ⟨s, p⟩ := x
    cases p with
    | waiting => rw [Option.some.inj done]
    | atRepeat => cases done
    | ending c => rw [resume_ending head] at done; cases done
  | succ fuel ih =>
    obtain ⟨s, p⟩ := x
    cases p with
    | waiting => rw [Option.some.inj done]
    | ending c => rw [resume_ending head] at done; cases done
    | atRepeat =>
      rw [resume, loop_round head] at done
      obtain ⟨y, stopped, rest⟩ := Option.bind_eq_some_iff.mp done
      -- a round for another request changes that request only
      have result : s.round other = some (y.1, y.2) := stopped
      obtain ⟨⟨⟨errors, queue, _⟩, _⟩, _⟩ := round_restarted result
      have still : y.1.current = some other := by
        rw [current, queue]
        exact head
      rw [ih still rest, queue]
      simp [apart]

/-- An interrupt for another request is one of the other steps. -/
theorem run_other {s s' : Disk} {h : Handler} {fuel : Nat} (apart : curr ≠ other) (head : s.current = some other)
    (done : h.run fuel s = some s') : Progresses curr (s, .waiting) .other (s', .waiting) := by
  rw [run_serve head] at done
  obtain ⟨⟨q, queue⟩, same⟩ := serve_other apart (s := s) h
  have still : (serve h other s).1.current = some other := by
    rw [current, queue]
    exact head
  refine .other (by simp) ⟨(s.queue.request curr).next, ?_⟩
  rw [resume_other apart still done, same]

/-- So is a call of `makeRequest` for another buffer. -/
theorem makeRequest_other {s : Disk} {q : Queue} {m : Nat} {rw : Rw} {b : Addr} {p : Place}
    (before : ∀ c, p ≠ .ending c) (used : 0 ≤ (s.queue.request curr).dev)
    (done : s.queue.makeRequestRepeat m rw b = some q) :
    Progresses curr (s, p) .other ({ s with queue := q }, p) :=
  .other before (makeRequestRepeat_other used done)

end Others

/-! ### The driver moves the head of the elevator -/

/-- A sector acknowledged with more of the block to come moves the request on. -/
theorem serve_moved {curr : ReqSlot} {s : Disk} {h : Handler} (good : Good h s)
    (more : (s.queue.request curr).nrSectors - 1 ≠ 0) :
    ∃ q, Queue.Moved (s.queue.request curr) q ∧ (serve h curr s).1.queue = s.queue.setRequest curr q := by
  obtain ⟨_, errors, queue⟩ := serve_moves good more
  refine ⟨_, ?_, queue⟩
  exact ⟨rfl, rfl, rfl, rfl⟩

/-! ### A read that fails at its second sector -/

/-- A read of block 5 is queued. The drive is ready, hands out the 256 words of
a sector, and then reports an error once. -/
def failsOnce : Disk :=
  { oneRead with
    queue := (Queue.booted.initHarddisk.makeRequestRepeat majorNr .read 5).getD oneRead.queue
    input := fun n => if n = 258 then 0 else 0x50 }

/-- The command and its two interrupts. -/
theorem failsOnce_served : ∃ s₁ s₂ s₃, failsOnce.round 31 = some (s₁, .waiting) ∧
    serve .readIntr 31 s₁ = (s₂, .waiting) ∧ serve .readIntr 31 s₂ = (s₃, .atRepeat) ∧
    s₁.current = some 31 ∧ Good .readIntr s₁ ∧ s₂.current = some 31 ∧ ¬ Good .readIntr s₂ ∧
    s₃.decision 31 = .transfer ⟨false, 0, 1, 12, 0, 0⟩ ∧ s₃.absoluteSector 31 = 11 := by
  have served : (failsOnce.round 31).any fun x =>
      let y := serve .readIntr 31 x.1
      let z := serve .readIntr 31 y.1
      decide (x.2 = .waiting ∧ y.2 = .waiting ∧ z.2 = .atRepeat ∧
        x.1.current = some 31 ∧ Good .readIntr x.1 ∧ y.1.current = some 31 ∧ ¬ Good .readIntr y.1 ∧
        z.1.decision 31 = .transfer ⟨false, 0, 1, 12, 0, 0⟩ ∧ z.1.absoluteSector 31 = 11) := by decide +kernel
  obtain ⟨⟨s₁, _⟩, issued, facts⟩ := (Option.any_eq_true _ _).mp served
  obtain ⟨rfl, first, second, facts⟩ := of_decide_eq_true facts
  exact ⟨s₁, _, _, issued, Prod.ext rfl first, Prod.ext rfl second, facts⟩

/-- The first sector is acknowledged, the error starts the request over, and the
next command asks for the second sector only. -/
theorem onCourse_of_run_failsOnce : ∃ hist s, Transition.Run (progress 31 5 0) hist (s, .atRepeat) ∧
    hist.map Prod.snd = [.irq .readIntr, .irq .readIntr, .round, .call] ∧ acknowledged hist = 1 ∧
    Position 5 0 1 (s.queue.request 31) ∧
    ∃ tr, s.decision 31 = .transfer tr ∧ firstSector s.info tr = 11 ∧ tr.nsect.toNat = 1 := by
  obtain ⟨s₁, s₂, s₃, issued, served, restarted, head₁, good, head₂, failed, decided, sector⟩ := failsOnce_served
  have start : Fresh 31 5 0 (failsOnce, .waiting) :=
    ⟨rfl, Queue.booted.initHarddisk, majorNr, .read, 5, rfl, rfl, rfl, rfl⟩
  have commanded : Transition.Run (progress 31 5 0) _ (s₁, .waiting) :=
    .step (.step (.init start) (.call rfl)) (.round rfl issued)
  have first : Progresses 31 (s₁, .waiting) (.irq .readIntr) (s₂, .waiting) := served ▸ .irq head₁
  have second : Progresses 31 (s₂, .waiting) (.irq .readIntr) (s₃, .atRepeat) := restarted ▸ .irq head₂
  have run := (commanded.step first).step second
  have one : acknowledged [((s₂, .waiting), .irq .readIntr), ((s₁, .waiting), .irq .readIntr),
      ((failsOnce, .atRepeat), .round), ((failsOnce, .waiting), .call)] = 1 := by
    have acked : Acknowledges ((s₁, .waiting), .irq .readIntr) := ⟨_, rfl, good⟩
    have silent : ¬ Acknowledges ((s₂, .waiting), .irq .readIntr) := by
      rintro ⟨h, same, again⟩
      cases same
      exact failed again
    have others : ¬ Acknowledges ((failsOnce, .atRepeat), .round) ∧ ¬ Acknowledges ((failsOnce, .waiting), .call) := by
      simp [Acknowledges]
    simp [acknowledged, acked, silent, others]
  obtain ⟨_, position, commands, _⟩ := onCourse_of_run (by decide) run
  rw [one] at position commands
  obtain ⟨here, count⟩ := commands _ rfl decided
  rw [sector] at here
  exact ⟨_, s₃, run, rfl, one, position (by simp), _, decided, here, count⟩

end Disk

end OperatorSystem.Blk
