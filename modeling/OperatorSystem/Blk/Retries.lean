import OperatorSystem.Blk.Partition

/-!
# The end of `harddiskRequest`

The loop of `harddiskRequest` goes back to `repeat` with the pointer to the
request it has just ended, and never to the next one. A request that a round
ends is turned down in every later round, so the call never returns. The main
result `disposes_iff` gives the calls that do return.
-/

namespace OperatorSystem.Blk.Disk

open OperatorSystem.Fs Relation

/-! ### What can happen at `repeat` -/

/-- The round that starts here ends the request with `endRequest(0)`: it is out
of range, or its last retry fails. -/
def Ends (curr : ReqSlot) (s : Disk) : Prop :=
  s.decision curr = .reject ∨
    ∃ t s₁, s.decision curr = .transfer t ∧ t.write = true ∧
      s.hdOut t.drive t.nsect t.sec t.head t.cyl winWrite .writeIntr = some s₁ ∧
      (drqLoop 3000 s₁).1 = false ∧ (s.queue.request curr).errors + 1 ≥ maxErrors

/-- `harddiskRequest` returns. -/
def Returns (s : Disk) : Prop := ∃ fuel s', s.harddiskRequest fuel = some s'

/-- What should happen when a round from `s` to `s'` ends the request `curr`: no
later round ends it again, and the call goes on with the next request. -/
structure Disposed (curr : ReqSlot) (s s' : Disk) : Prop where
  once : ∀ s'', ReflTransGen (Round curr) s' s'' → ¬ Ends curr s''
  next : ∀ fuel, harddiskRequestLoop curr fuel s' =
    match s.queue.link curr with
    | none => some s'
    | some r => harddiskRequestLoop r fuel s'

/-- The call returns, and disposes of every request that it ends. -/
def Disposes (s : Disk) : Prop :=
  s.Returns ∧ ∀ curr, s.current = some curr → ∀ s₁ s₂, ReflTransGen (Round curr) s s₁ →
    Round curr s₁ s₂ → Ends curr s₁ → Disposed curr s₁ s₂

/-! ### What the call needs -/

/-- The request is for a partition that exists, and its sectors pass the comparison. -/
def InRange (s : Disk) (q : Request) : Prop :=
  let dev : BitVec 32 := BitVec.ofInt 32 q.dev &&& 0xff
  dev < 5 ∧ Accepted (s.hd dev.toNat) q.sector

/-- The head of the drive that the first sector of the request lies under. -/
def headOf (s : Disk) (q : Request) : BitVec 32 :=
  (q.sector + (s.hd (BitVec.ofInt 32 q.dev &&& 0xff).toNat).startSector) / s.info.sector % s.info.head

/-- From `place` on the answers let `resetHd` through: the controller is ready after the reset. -/
def ResetAnswered (input : Nat → BitVec 16) (place : Nat) : Prop :=
  ∃ next next', SettledAt input place next ∧ FirstAnswer Idle input 99999 next next'

/-- From `place` on the answers let a write with `errors` failures so far
through. The controller is ready, and one of 3000 answers shows `DRQ_STAT`; a
failure is followed by another try, or from the fourth one on by a reset, and
the seventh does not occur. -/
inductive WriteAnswered (input : Nat → BitVec 16) (heads : BitVec 32) : Int → Nat → Prop
  | asked {errors : Int} {place next : Nat} (ready : FirstAnswer Idle input 99999 place next)
      (asked : ¬ NoAnswer Requests input 3000 next) : WriteAnswered input heads errors place
  | again {errors : Int} {place next : Nat} (ready : FirstAnswer Idle input 99999 place next)
      (silent : NoAnswer Requests input 3000 next) (few : errors + 1 ≤ maxErrors / 2)
      (rest : WriteAnswered input heads (errors + 1) (next + 3000)) : WriteAnswered input heads errors place
  | reset {errors : Int} {place next : Nat} (ready : FirstAnswer Idle input 99999 place next)
      (silent : NoAnswer Requests input 3000 next) (many : maxErrors / 2 < errors + 1)
      (last : errors + 1 < maxErrors) (reachable : heads ≤ 16) (rest : ResetAnswered input (next + 3000)) :
      WriteAnswered input heads errors place

/-- The request at the head, the geometry and the answers of the drive before
the call, such that the call can come to its end. -/
structure Served (s : Disk) (q : Request) : Prop where
  inRange : s.InRange q
  sector : s.info.sector ≠ 0
  head : s.info.head ≠ 0
  command :
    if s.reset then s.info.head ≤ 16 ∧ ResetAnswered s.input s.reads
    else if s.recalibrate then ∃ next, FirstAnswer Idle s.input 99999 s.reads next
    else if q.cmd = 1 then s.headOf q ≤ 15 ∧ WriteAnswered s.input s.info.head q.errors s.reads
    else if q.cmd = 0 then s.headOf q ≤ 15 ∧ ∃ next, FirstAnswer Idle s.input 99999 s.reads next
    else True

section Rounds

variable {curr : ReqSlot} {s s' s₁ : Disk} {fuel : Nat}

/-! ### The command of a round -/

/-- `hdOut` reaches the ports exactly if its arguments are right and the controller gets ready. -/
theorem hdOut_isSome {drive nsect sect head cyl cmd : BitVec 32} {h : Handler} :
    (∃ s', s.hdOut drive nsect sect head cyl cmd h = some s') ↔
      (drive ≤ 1 ∧ head ≤ 15) ∧ ∃ next, FirstAnswer Idle s.input 99999 s.reads next := by
  have bounds : (drive > 1 ∨ head > 15) ↔ ¬ (drive ≤ 1 ∧ head ≤ 15) := by
    rw [not_and_or, BitVec.not_le, BitVec.not_le]
  simp only [hdOut, bounds]
  split
  next refused =>
    refine iff_of_false ?_ fun accepts => refused accepts.1
    rintro ⟨_, done⟩
    cases done
  next passed =>
    rw [and_iff_right (not_not.mp passed)]
    rcases controllerReady_first s with ⟨next, first, ready, _⟩ | ⟨none, busy⟩
    · rw [if_neg ready]
      exact iff_of_true ⟨_, rfl⟩ ⟨next, first⟩
    · rw [if_pos busy]
      refine iff_of_false ?_ ?_
      · rintro ⟨_, done⟩
        cases done
      · rintro ⟨next, first⟩
        exact first.not_none none

/-- What `hdOut` changes. -/
theorem hdOut_result {drive nsect sect head cyl cmd : BitVec 32} {h : Handler}
    (issued : s.hdOut drive nsect sect head cyl cmd h = some s₁) :
    ∃ next out, FirstAnswer Idle s.input 99999 s.reads next ∧
      s₁ = { s with reads := next, deviceIntr := some h, out } := by
  simp only [hdOut] at issued
  split at issued
  · cases issued
  · rcases controllerReady_first s with ⟨next, first, ready, result⟩ | ⟨_, busy⟩
    · rw [if_neg ready, result] at issued
      rw [← Option.some.inj issued]
      exact ⟨next, _, first, rfl⟩
    · rw [if_pos busy] at issued
      cases issued

/-- With the answer that `controllerReady` stops at, `hdOut` issues its command. -/
theorem hdOut_ready {drive nsect sect head cyl cmd : BitVec 32} {h : Handler} {next : Nat}
    (addressed : drive ≤ 1 ∧ head ≤ 15) (ready : FirstAnswer Idle s.input 99999 s.reads next) :
    ∃ out, s.hdOut drive nsect sect head cyl cmd h =
      some { s with reads := next, deviceIntr := some h, out } := by
  obtain ⟨s₁, issued⟩ := hdOut_isSome.mpr ⟨addressed, ⟨next, ready⟩⟩
  obtain ⟨next', out, first, result⟩ := hdOut_result issued
  rw [first.unique ready] at result
  exact ⟨out, issued.trans (congrArg some result)⟩

theorem drive_zero {dev : BitVec 32} (small : dev < 5) : dev / 5 = 0 := by
  apply BitVec.eq_of_toNat_eq
  rw [BitVec.toNat_udiv]
  exact Nat.div_eq_of_lt small

/-- `decision` with the checks that `Served` makes. -/
theorem decision_inRange (inRange : s.InRange (s.queue.request curr)) (sector : s.info.sector ≠ 0)
    (head : s.info.head ≠ 0) :
    ∃ sec cyl, s.decision curr =
      let q := s.queue.request curr
      if s.reset then .resetDrive 0
      else if s.recalibrate then .recalibrateDrive 0
      else if q.cmd = 1 then .transfer ⟨true, 0, q.nrSectors, sec, s.headOf q, cyl⟩
      else if q.cmd = 0 then .transfer ⟨false, 0, q.nrSectors, sec, s.headOf q, cyl⟩
      else .unknownCommand := by
  obtain ⟨small, accepted⟩ := inRange
  have passes : ¬ (BitVec.ofInt 32 (s.queue.request curr).dev &&& 0xff ≥ 5 ∨
      (s.queue.request curr).sector + 2 > (s.hd (BitVec.ofInt 32 (s.queue.request curr).dev &&& 0xff).toNat).startSector +
        (s.hd (BitVec.ofInt 32 (s.queue.request curr).dev &&& 0xff).toNat).cntSectors - 1) := by
    rintro (large | beyond)
    · exact absurd small (BitVec.not_lt.mpr large)
    · exact accepted beyond
  simp only [decision, if_neg passes, if_neg sector, if_neg head, drive_zero small]
  exact ⟨_, _, rfl⟩

theorem decision_served (notRejected : s.decision curr ≠ .reject) (divides : s.decision curr ≠ .divideError) :
    s.InRange (s.queue.request curr) ∧ s.info.sector ≠ 0 ∧ s.info.head ≠ 0 := by
  have inRange : s.InRange (s.queue.request curr) := by
    by_contra outside
    refine notRejected (if_pos ?_)
    by_contra passes
    obtain ⟨small, accepted⟩ := not_or.mp passes
    exact outside ⟨BitVec.not_le.mp small, accepted⟩
  have passes : ¬ (BitVec.ofInt 32 (s.queue.request curr).dev &&& 0xff ≥ 5 ∨ _) :=
    not_or.mpr ⟨BitVec.not_le.mpr inRange.1, inRange.2⟩
  -- the two divisions come after the comparison
  have sector : s.info.sector ≠ 0 := by
    intro zero
    refine divides ((if_neg passes).trans (if_pos zero))
  refine ⟨inRange, sector, fun zero => divides ?_⟩
  exact (if_neg passes).trans ((if_neg sector).trans (if_pos zero))

theorem head_pred {head : BitVec 32} (nonzero : head ≠ 0) : head - 1 ≤ 15 ↔ head ≤ 16 := by
  have positive : head.toNat ≠ 0 := fun zero => nonzero (BitVec.eq_of_toNat_eq zero)
  have small := head.isLt
  rw [BitVec.le_def, BitVec.le_def, BitVec.toNat_sub]
  change (2 ^ 32 - 1 + head.toNat) % 2 ^ 32 ≤ 15 ↔ head.toNat ≤ 16
  omega

/-- `resetHd` for the first drive comes back exactly if the answers let it through. -/
theorem resetHd_isSome (nonzero : s.info.head ≠ 0) :
    (∃ s', s.resetHd 0 = some s') ↔ s.info.head ≤ 16 ∧ ResetAnswered s.input s.reads := by
  obtain ⟨next, out, settled, result⟩ := resetController_settled s
  simp only [resetHd, result, hdOut_isSome, head_pred nonzero]
  have drive : (0 : BitVec 32) ≤ 1 := by decide
  rw [and_iff_right drive]
  refine and_congr_right' ⟨fun ⟨next', first⟩ => ⟨next, next', settled, first⟩, ?_⟩
  rintro ⟨other, next', same, first⟩
  rw [settled.unique same]
  exact ⟨next', first⟩


/-! ### The rounds after an end -/

theorem endRequest_some (head : s.current = some curr) (uptodate : Bool) :
    ∃ s', s.endRequest uptodate = some s' ∧ (s'.queue.request curr).dev = -1 := by
  refine ⟨_, Option.bind_eq_some_iff.mpr ⟨curr, head, rfl⟩, ?_⟩
  simp [Queue.endRequest, Queue.setRequest]

/-- A request that has been ended keeps the loop going for ever. -/
theorem ended_loop (head : s.current = some curr) (ended : (s.queue.request curr).dev = -1) :
    harddiskRequestLoop curr fuel s = none := by
  induction fuel generalizing s with
  | zero => rfl
  | succ fuel ih =>
    obtain ⟨s', done, again⟩ := endRequest_some head false
    have decided : s.decision curr = .reject := decision_ended ended
    have round : Round curr s s' := .reject decided done
    rw [round.loop]
    exact ih ((round.follows head).current.trans head) again

/-- The seventh failed write ends the request. -/
theorem badRwIntr_last (head : s.current = some curr) (last : (s.queue.request curr).errors + 1 ≥ maxErrors) :
    ∃ s', s.badRwIntr = some s' ∧ (s'.queue.request curr).dev = -1 := by
  have raised : (s.setRequest curr { s.queue.request curr with errors := (s.queue.request curr).errors + 1 }).current =
      some curr := head
  obtain ⟨s', ended, dead⟩ := endRequest_some raised false
  have counted : s.countError curr = some s' := by
    simp only [countError, if_pos last]
    exact ended
  refine ⟨_, Option.bind_eq_some_iff.mpr ⟨curr, head, Option.bind_eq_some_iff.mpr ⟨s', counted, rfl⟩⟩, ?_⟩
  split
  · exact dead
  · exact dead

/-- A failure that is only counted; from the fourth on the drive is to be reset. -/
structure Counted (curr : ReqSlot) (s s' : Disk) : Prop where
  request : s'.queue.request curr =
    { s.queue.request curr with errors := (s.queue.request curr).errors + 1 }
  input : s'.input = s.input
  reads : s'.reads = s.reads
  recalibrate : s'.recalibrate = s.recalibrate
  reset : s'.reset = true ↔ s.reset = true ∨ maxErrors / 2 < (s.queue.request curr).errors + 1

theorem badRwIntr_counted (head : s.current = some curr)
    (more : ¬ (s.queue.request curr).errors + 1 ≥ maxErrors) : ∃ s', s.badRwIntr = some s' ∧ Counted curr s s' := by
  have counted : s.countError curr =
      some (s.setRequest curr { s.queue.request curr with errors := (s.queue.request curr).errors + 1 }) := by
    simp only [countError]
    exact if_neg more
  refine ⟨_, Option.bind_eq_some_iff.mpr ⟨curr, head, Option.bind_eq_some_iff.mpr ⟨_, counted, rfl⟩⟩, ?_⟩
  simp only [setRequest, Queue.setRequest_request, Function.update_self]
  split
  next many =>
    refine ⟨?_, rfl, rfl, rfl, iff_of_true rfl (.inr many)⟩
    simp
  next few =>
    refine ⟨?_, rfl, rfl, rfl, (or_iff_left few).symm⟩
    simp

theorem hdOut_queue {drive nsect sect head cyl cmd : BitVec 32} {h : Handler}
    (issued : s.hdOut drive nsect sect head cyl cmd h = some s₁) : s₁.queue = s.queue := by
  obtain ⟨next, out, _, result⟩ := hdOut_result issued
  rw [result]

/-- The wait for the drive leaves the queue alone. -/
theorem waited_queue {drive nsect sect head cyl cmd : BitVec 32} {h : Handler}
    (issued : s.hdOut drive nsect sect head cyl cmd h = some s₁) : (drqLoop 3000 s₁).2.queue = s.queue := by
  have queue := hdOut_queue issued
  obtain ⟨reads, loop⟩ := drqLoop_reads 3000 s₁
  rw [loop]
  exact queue

/-- A round that ends its request never comes back. -/
theorem Ends.loop (head : s.current = some curr) (ends : Ends curr s) : harddiskRequestLoop curr fuel s = none := by
  cases fuel with
  | zero => rfl
  | succ fuel =>
    rcases ends with decided | ⟨t, s₁, decided, write, issued, silent, last⟩
    · obtain ⟨s', done, dead⟩ := endRequest_some head false
      have round : Round curr s s' := .reject decided done
      rw [round.loop]
      exact ended_loop ((round.follows head).current.trans head) dead
    · have queue := waited_queue issued
      have still : (drqLoop 3000 s₁).2.current = some curr := by
        rw [current, queue]
        exact head
      obtain ⟨s', bad, dead⟩ := badRwIntr_last still (by rw [queue]; exact last)
      have round : Round curr s s' := .noDrq decided write issued silent bad
      rw [round.loop]
      exact ended_loop ((round.follows head).current.trans head) dead

/-- A call that returns has ended no request in any round. -/
theorem returns_rounds (head : s.current = some curr) (done : harddiskRequestLoop curr fuel s = some s')
    (rounds : ReflTransGen (Round curr) s s₁) : ¬ Ends curr s₁ := by
  induction rounds using ReflTransGen.head_induction_on generalizing fuel with
  | refl =>
    intro ends
    rw [ends.loop head] at done
    cases done
  | head round _ ih =>
    cases fuel with
    | zero => cases done
    | succ fuel =>
      rw [round.loop] at done
      exact ih ((round.follows head).current.trans head) done

/-! ### A failed write -/

/-- A write that fails, and not for the last time, goes back to `repeat`. -/
theorem again_of_silent {t : Transfer} {next : Nat} {out : List Out} (head : s.current = some curr)
    (decided : s.decision curr = .transfer t) (write : t.write = true)
    (issued : s.hdOut t.drive t.nsect t.sec t.head t.cyl winWrite .writeIntr =
      some { s with reads := next, deviceIntr := some .writeIntr, out })
    (silent : NoAnswer Requests s.input 3000 next) (more : ¬ (s.queue.request curr).errors + 1 ≥ maxErrors) :
    ∃ s', Round curr s s' ∧ Counted curr { s with reads := next + 3000 } s' := by
  have waits : drqLoop 3000 { s with reads := next, deviceIntr := some .writeIntr, out } = (false, _) :=
    drqLoop_silent silent
  have still : (drqLoop 3000 { s with reads := next, deviceIntr := some .writeIntr, out }).2.current = some curr := by
    rw [waits]
    exact head
  obtain ⟨s', bad, counted⟩ := badRwIntr_counted still (by rw [waits]; exact more)
  refine ⟨s', .noDrq decided write issued (by rw [waits]) bad, ?_⟩
  rw [waits] at counted
  exact ⟨counted.request, counted.input, counted.reads, counted.recalibrate, counted.reset⟩

/-- What the next round needs of the drive and its answers. -/
theorem served_again {place : Nat} (head : s.current = some curr) (round : Round curr s s')
    (counted : Counted curr { s with reads := place } s') (served : s.InRange (s.queue.request curr))
    (sector : s.info.sector ≠ 0) (heads : s.info.head ≠ 0) (noReset : s.reset = false)
    (noRecalibrate : s.recalibrate = false) (write : (s.queue.request curr).cmd = 1)
    (reachable : s.headOf (s.queue.request curr) ≤ 15) :
    Served s' (s'.queue.request curr) ↔
      if maxErrors / 2 < (s.queue.request curr).errors + 1 then
        s.info.head ≤ 16 ∧ ResetAnswered s.input place
      else WriteAnswered s.input s.info.head ((s.queue.request curr).errors + 1) place := by
  have follows := round.follows head
  have resets : s'.reset = true ↔ maxErrors / 2 < (s.queue.request curr).errors + 1 := by
    rw [counted.reset]
    simp only [noReset, Bool.false_eq_true, false_or]
  have request : s'.queue.request curr =
    { s.queue.request curr with errors := (s.queue.request curr).errors + 1 } := counted.request
  constructor
  · rintro ⟨_, _, _, command⟩
    rw [request, follows.info, counted.input, counted.reads, counted.recalibrate, if_congr resets rfl rfl] at command
    split
    next many =>
      rw [if_pos many] at command
      exact command
    next few =>
      simp only [if_neg few, noRecalibrate, Bool.false_eq_true, if_false, write, if_true] at command
      exact command.2
  · intro command
    refine ⟨?_, by rw [follows.info]; exact sector, by rw [follows.info]; exact heads, ?_⟩
    · rw [request, InRange, follows.hd]
      exact served
    · rw [request, follows.info, counted.input, counted.reads, counted.recalibrate, if_congr resets rfl rfl]
      split
      next many =>
        rw [if_pos many] at command
        exact command
      next few =>
        rw [if_neg few] at command
        simp only [noRecalibrate, Bool.false_eq_true, if_false, write]
        refine ⟨?_, command⟩
        rw [headOf, follows.info, follows.hd]
        exact reachable

/-! ### The calls that return -/

/-- A call that returns has had all that it needs. -/
theorem served_of_returns (head : s.current = some curr) (done : harddiskRequestLoop curr fuel s = some s') :
    Served s (s.queue.request curr) := by
  induction fuel generalizing s with
  | zero => cases done
  | succ fuel ih =>
    have goesOn : ¬ Ends curr s := returns_rounds head done .refl
    have divides : s.decision curr ≠ .divideError := by
      intro decided
      simp [harddiskRequestLoop, decided] at done
    obtain ⟨inRange, sector, heads⟩ := decision_served (fun decided => goesOn (.inl decided)) divides
    refine ⟨inRange, sector, heads, ?_⟩
    obtain ⟨sec, cyl, decided⟩ := decision_inRange inRange sector heads
    dsimp only at decided
    -- the flags and the command decide which call of `hdOut` has come back
    split
    next reset =>
      rw [if_pos reset] at decided
      rw [harddiskRequestLoop, decided] at done
      exact (resetHd_isSome (s := { s with reset := false, recalibrate := true }) heads).mp ⟨_, done⟩
    next noReset =>
      rw [if_neg noReset] at decided
      split
      next recalibrate =>
        rw [if_pos recalibrate] at decided
        rw [harddiskRequestLoop, decided] at done
        exact (hdOut_isSome.mp ⟨_, done⟩).2
      next noRecalibrate =>
        rw [if_neg noRecalibrate] at decided
        split
        next write =>
          rw [if_pos write] at decided
          have whole := done
          simp only [harddiskRequestLoop, decided, if_true] at done
          obtain ⟨s₁, issued, _⟩ := Option.bind_eq_some_iff.mp done
          have reachable := (hdOut_isSome.mp ⟨_, issued⟩).1.2
          refine ⟨reachable, ?_⟩
          obtain ⟨next, out, ready, rfl⟩ := hdOut_result issued
          by_cases silent : NoAnswer Requests s.input 3000 next
          · have more : ¬ (s.queue.request curr).errors + 1 ≥ maxErrors := fun last =>
              goesOn (.inr ⟨_, _, decided, rfl, issued, drqLoop_false.mpr silent, last⟩)
            obtain ⟨s₂, round, counted⟩ := again_of_silent head decided rfl issued silent more
            rw [round.loop] at whole
            have rest := (served_again head round counted inRange sector heads (by simpa using noReset)
              (by simpa using noRecalibrate) write reachable).mp (ih ((round.follows head).current.trans head) whole)
            split at rest
            next many => exact .reset ready silent many (not_le.mp more) rest.1 rest.2
            next few => exact .again ready silent (not_lt.mp few) rest
          · exact .asked ready silent
        next noWrite =>
          rw [if_neg noWrite] at decided
          split
          next read =>
            rw [if_pos read] at decided
            simp only [harddiskRequestLoop, decided, Bool.false_eq_true, if_false] at done
            have issued := hdOut_isSome.mp ⟨_, done⟩
            exact ⟨issued.1.2, issued.2⟩
          next => trivial

/-- A call that has all it needs returns: every failed write but the last that
is allowed adds an error. -/
theorem returns_of_served (head : s.current = some curr) (served : Served s (s.queue.request curr)) :
    ∃ fuel s', harddiskRequestLoop curr fuel s = some s' := by
  -- the induction is on the errors that are left
  induction left : (maxErrors - (s.queue.request curr).errors).toNat using Nat.strong_induction_on generalizing s with
  | _ n ih =>
    obtain ⟨inRange, sector, heads, command⟩ := served
    obtain ⟨sec, cyl, decided⟩ := decision_inRange inRange sector heads
    dsimp only at decided
    have drive : (0 : BitVec 32) ≤ 1 := by decide
    have first : (0 : BitVec 32) ≤ 15 := by decide
    -- the same cases as in the source
    split at command
    next reset =>
      rw [if_pos reset] at decided
      obtain ⟨s', done⟩ := (resetHd_isSome (s := { s with reset := false, recalibrate := true }) heads).mpr command
      exact ⟨1, s', by rw [harddiskRequestLoop, decided]; exact done⟩
    next noReset =>
      rw [if_neg noReset] at decided
      split at command
      next recalibrate =>
        rw [if_pos recalibrate] at decided
        obtain ⟨s', done⟩ : ∃ s', { s with recalibrate := false }.hdOut 0 s.info.sector 0 0 0 winRestore
            .recalIntr = some s' :=
          (hdOut_isSome (s := { s with recalibrate := false })).mpr ⟨⟨drive, first⟩, command⟩
        exact ⟨1, s', by rw [harddiskRequestLoop, decided]; exact done⟩
      next noRecalibrate =>
        rw [if_neg noRecalibrate] at decided
        split at command
        next write =>
          rw [if_pos write] at decided
          obtain ⟨reachable, answered⟩ := command
          -- a failure is followed by another round
          have goesOn : ∀ next, FirstAnswer Idle s.input 99999 s.reads next → NoAnswer Requests s.input 3000 next →
              (s.queue.request curr).errors + 1 < maxErrors →
              (if maxErrors / 2 < (s.queue.request curr).errors + 1 then
                s.info.head ≤ 16 ∧ ResetAnswered s.input (next + 3000)
              else WriteAnswered s.input s.info.head ((s.queue.request curr).errors + 1) (next + 3000)) →
              ∃ fuel s', harddiskRequestLoop curr fuel s = some s' := by
            intro next ready silent more rest
            obtain ⟨out, issued⟩ := hdOut_ready ⟨drive, reachable⟩ ready
            obtain ⟨s₂, round, counted⟩ := again_of_silent head decided rfl issued silent (not_le.mpr more)
            have again := (served_again head round counted inRange sector heads (by simpa using noReset)
              (by simpa using noRecalibrate) write reachable).mpr rest
            obtain ⟨fuel, s', done⟩ := ih _ (by rw [counted.request]; dsimp only; omega)
              ((round.follows head).current.trans head) again rfl
            exact ⟨fuel + 1, s', by rw [round.loop, done]⟩
          cases answered with
          | @asked _ _ next ready asked =>
            obtain ⟨out, issued⟩ : ∃ out, s.hdOut 0 (s.queue.request curr).nrSectors sec
                (s.headOf (s.queue.request curr)) cyl winWrite .writeIntr =
                  some { s with reads := next, deviceIntr := some .writeIntr, out } :=
              hdOut_ready ⟨drive, reachable⟩ ready
            have seen : (drqLoop 3000 { s with reads := next, deviceIntr := some .writeIntr, out }).1 = true :=
              (Bool.not_eq_false _).mp fun none => asked (drqLoop_false.mp none)
            refine ⟨1, ?_⟩
            simp only [harddiskRequestLoop, decided, if_true, issued, Option.bind_eq_bind, Option.bind_some]
            exact ⟨_, if_pos seen⟩
          | again ready silent few rest =>
            refine goesOn _ ready silent ?_ ?_
            · simp only [maxErrors] at few ⊢
              omega
            · rw [if_neg (not_lt.mpr few)]
              exact rest
          | reset ready silent many last reachable' rest =>
            refine goesOn _ ready silent last ?_
            rw [if_pos many]
            exact ⟨reachable', rest⟩
        next noWrite =>
          rw [if_neg noWrite] at decided
          split at command
          next read =>
            rw [if_pos read] at decided
            obtain ⟨s', done⟩ : ∃ s', s.hdOut 0 (s.queue.request curr).nrSectors sec
                (s.headOf (s.queue.request curr)) cyl winRead .readIntr = some s' :=
              hdOut_isSome.mpr ⟨⟨drive, command.1⟩, command.2⟩
            exact ⟨1, s', by rw [harddiskRequestLoop, decided]; exact done⟩
          next unknown =>
            rw [if_neg unknown] at decided
            exact ⟨1, s, by rw [harddiskRequestLoop, decided]⟩

end Rounds

/-- A call returns and disposes of what it ends if and only if its request is in
range, the geometry is known and the answers of the drive let the command through. -/
theorem disposes_iff (s : Disk) :
    s.Disposes ↔ ∀ curr, s.current = some curr → Served s (s.queue.request curr) := by
  constructor
  · rintro ⟨⟨fuel, s₁, done⟩, _⟩ curr head
    rw [harddiskRequest, head] at done
    exact served_of_returns head done
  · intro served
    have returns : ∀ curr, s.current = some curr → ∃ fuel s', harddiskRequestLoop curr fuel s = some s' :=
      fun curr head => returns_of_served head (served curr head)
    constructor
    · cases head : s.current with
      | none => exact ⟨0, s, by rw [harddiskRequest, head]⟩
      | some curr =>
        obtain ⟨fuel, s', done⟩ := returns curr head
        exact ⟨fuel, s', by rw [harddiskRequest, head]; exact done⟩
    · -- a call that returns has ended no request
      intro curr head s₁ s₂ rounds _ ends
      obtain ⟨fuel, s', done⟩ := returns curr head
      exact absurd ends (returns_rounds head done rounds)

/-- A request for a partition that does not exist. -/
def badMinor : Disk :=
  { oneRead with queue := oneRead.queue.setRequest ⟨0, nrRequest_pos⟩ ⟨0x305, 0, 0, 0, 2, 0, some 0x100000, none⟩ }

/-- The call of `harddiskRequest` never returns. -/
theorem disposes_lost : badMinor.current = some 0 ∧ badMinor.queue.link 0 = none ∧
    (∀ fuel, badMinor.harddiskRequest fuel = none) ∧ ¬ badMinor.Disposes := by
  have head : badMinor.current = some 0 := rfl
  have decided : badMinor.decision 0 = .reject := rfl
  have never : ∀ fuel, badMinor.harddiskRequest fuel = none := by
    intro fuel
    rw [harddiskRequest, head]
    exact Ends.loop head (.inl decided)
  refine ⟨head, rfl, never, ?_⟩
  rintro ⟨⟨fuel, s', done⟩, _⟩
  rw [never fuel] at done
  cases done

end OperatorSystem.Blk.Disk
