import OperatorSystem.Blk.Harddisk

/-!
# The answers of the drive

Three loops of the driver read the status until a bit shows or they have read
it often enough. `polled` says of all of them which answer they stop at.
-/

namespace OperatorSystem.Blk

/-- The byte that a read of a port gets at a place of the answers. -/
def answer (input : Nat → BitVec 16) (place : Nat) : BitVec 8 := (input place).setWidth 8

/-- The first of `n` answers from `place` on that has the property is the last one before `next`. -/
def FirstAnswer (P : BitVec 8 → Prop) (input : Nat → BitVec 16) (n place next : Nat) : Prop :=
  ∃ k < n, next = place + k + 1 ∧ (∀ i < k, ¬ P (answer input (place + i))) ∧ P (answer input (place + k))

/-- None of the `n` answers from `place` on has the property. -/
def NoAnswer (P : BitVec 8 → Prop) (input : Nat → BitVec 16) (n place : Nat) : Prop :=
  ∀ i < n, ¬ P (answer input (place + i))

/-- `BUSY_STAT` is clear. -/
def Idle (i : BitVec 8) : Prop := i &&& 0x80 = 0

/-- `READY_STAT` is set and `BUSY_STAT` clear. -/
def Settled (i : BitVec 8) : Prop := readyStat = i &&& (busyStat ||| readyStat)

/-- `DRQ_STAT` is set. -/
def Requests (i : BitVec 8) : Prop := i &&& drqStat ≠ 0

instance (i : BitVec 8) : Decidable (Idle i) := inferInstanceAs (Decidable (_ = _))

instance (i : BitVec 8) : Decidable (Settled i) := inferInstanceAs (Decidable (_ = _))

instance (i : BitVec 8) : Decidable (Requests i) := inferInstanceAs (Decidable (¬ _))

section Answers

variable {P : BitVec 8 → Prop} {input : Nat → BitVec 16} {n place next : Nat}

theorem FirstAnswer.here (pos : 0 < n) (holds : P (answer input place)) :
    FirstAnswer P input n place (place + 1) :=
  ⟨0, pos, rfl, fun i before => absurd before (Nat.not_lt_zero i), holds⟩

theorem FirstAnswer.later (fails : ¬ P (answer input place)) (rest : FirstAnswer P input n (place + 1) next) :
    FirstAnswer P input (n + 1) place next := by
  obtain ⟨k, small, stop, before, holds⟩ := rest
  refine ⟨k + 1, by omega, by omega, fun i earlier => ?_, ?_⟩
  · cases i with
    | zero => exact fails
    | succ i =>
      rw [Nat.add_comm _ 1, ← Nat.add_assoc]
      exact before i (by omega)
  · rw [Nat.add_comm _ 1, ← Nat.add_assoc]
    exact holds

theorem NoAnswer.cons (fails : ¬ P (answer input place)) (rest : NoAnswer P input n (place + 1)) :
    NoAnswer P input (n + 1) place := by
  intro i small
  cases i with
  | zero => exact fails
  | succ i =>
    rw [Nat.add_comm _ 1, ← Nat.add_assoc]
    exact rest i (by omega)

/-- The answers decide where a loop stops. -/
theorem FirstAnswer.unique {next' : Nat} (first : FirstAnswer P input n place next)
    (second : FirstAnswer P input n place next') : next = next' := by
  obtain ⟨k, _, stop, before, holds⟩ := first
  obtain ⟨l, _, stop', before', holds'⟩ := second
  rcases Nat.lt_trichotomy k l with earlier | rfl | later
  · exact absurd holds (before' k earlier)
  · rw [stop, stop']
  · exact absurd holds' (before l later)

theorem FirstAnswer.not_none (first : FirstAnswer P input n place next) : ¬ NoAnswer P input n place := by
  obtain ⟨k, small, _, _, holds⟩ := first
  exact fun none => none k small holds

end Answers

namespace Disk

/-! ### The loops -/

section Loops

variable {s : Disk}

/-- Reads at most `n` bytes until one has the property; whether one did. -/
def poll (P : BitVec 8 → Prop) [DecidablePred P] : Nat → Disk → Bool × Disk
  | 0, s => (false, s)
  | n + 1, s =>
    let (i, s) := s.inByte
    if P i then (true, s) else poll P n s

/-- What `poll` does is decided by the answers. -/
theorem polled (P : BitVec 8 → Prop) [DecidablePred P] (n : Nat) (s : Disk) :
    (∃ next, FirstAnswer P s.input n s.reads next ∧ poll P n s = (true, { s with reads := next })) ∨
      (NoAnswer P s.input n s.reads ∧ poll P n s = (false, { s with reads := s.reads + n })) := by
  induction n generalizing s with
  | zero => exact .inr ⟨fun i small => absurd small (Nat.not_lt_zero i), rfl⟩
  | succ n ih =>
    by_cases holds : P (answer s.input s.reads)
    · exact .inl ⟨s.reads + 1, .here (Nat.succ_pos n) holds, if_pos holds⟩
    · have goesOn : poll P (n + 1) s = poll P n { s with reads := s.reads + 1 } := if_neg holds
      rw [goesOn]
      rcases ih { s with reads := s.reads + 1 } with ⟨next, first, stops⟩ | ⟨none, ends⟩
      · exact .inl ⟨next, .later holds first, stops⟩
      · refine .inr ⟨.cons holds none, ?_⟩
        rw [ends, Nat.add_assoc, Nat.add_comm 1]

theorem drqLoop_eq (n : Nat) (s : Disk) : drqLoop n s = poll Requests n s := by
  induction n generalizing s with
  | zero => rfl
  | succ n ih =>
    simp only [drqLoop, poll, ih]
    rfl

theorem driveBusyLoop_eq (n : Nat) (s : Disk) : driveBusyLoop n s = (poll Settled n s).2 := by
  induction n generalizing s with
  | zero => rfl
  | succ n ih =>
    simp only [driveBusyLoop, poll, ih]
    split
    next settled => rw [if_pos (show Settled s.inByte.1 from settled)]
    next unsettled => rw [if_neg (show ¬ Settled s.inByte.1 from unsettled)]

/-- The number of tries is counted down before the first read. -/
theorem controllerReadyLoop_eq (n : Nat) (s : Disk) : (controllerReadyLoop (n + 1) s).2 = (poll Idle n s).2 ∧
    ((controllerReadyLoop (n + 1) s).1 ≠ 0 ↔ (poll Idle n s).1 = true) := by
  induction n generalizing s with
  | zero => exact ⟨rfl, by simp [controllerReadyLoop, poll]⟩
  | succ n ih =>
    rw [controllerReadyLoop]
    simp only [Nat.succ_ne_zero, if_false, poll]
    by_cases idle : Idle s.inByte.1
    · have clear : ¬ s.inByte.1 &&& 0x80 ≠ 0 := not_not.mpr idle
      rw [if_neg clear, if_pos idle]
      exact ⟨rfl, iff_of_true (Nat.succ_ne_zero n) rfl⟩
    · have busy : s.inByte.1 &&& 0x80 ≠ 0 := idle
      rw [if_pos busy, if_neg idle]
      exact ih s.inByte.2

/-- A loop changes nothing but the number of answers read. -/
theorem poll_reads (P : BitVec 8 → Prop) [DecidablePred P] (n : Nat) (s : Disk) :
    ∃ reads, (poll P n s).2 = { s with reads } := by
  rcases polled P n s with ⟨next, _, stops⟩ | ⟨_, ends⟩
  · exact ⟨next, by rw [stops]⟩
  · exact ⟨_, by rw [ends]⟩

theorem drqLoop_reads (n : Nat) (s : Disk) : ∃ reads, (drqLoop n s).2 = { s with reads } := by
  rw [drqLoop_eq]
  exact poll_reads Requests n s

theorem driveBusyLoop_reads (n : Nat) (s : Disk) : ∃ reads, driveBusyLoop n s = { s with reads } := by
  rw [driveBusyLoop_eq]
  exact poll_reads Settled n s

theorem controllerReady_reads (s : Disk) : ∃ reads, s.controllerReady.2 = { s with reads } := by
  rw [controllerReady, (controllerReadyLoop_eq 99999 s).1]
  exact poll_reads Idle 99999 s

/-- `controllerReady` succeeds exactly if one of its answers shows no `BUSY_STAT`. -/
theorem controllerReady_first (s : Disk) :
    (∃ next, FirstAnswer Idle s.input 99999 s.reads next ∧ s.controllerReady.1 ≠ 0 ∧
      s.controllerReady.2 = { s with reads := next }) ∨
    (NoAnswer Idle s.input 99999 s.reads ∧ s.controllerReady.1 = 0) := by
  have loop := controllerReadyLoop_eq 99999 s
  have ready := loop.2
  rw [controllerReady, loop.1]
  rcases polled Idle 99999 s with ⟨next, first, stops⟩ | ⟨none, ends⟩
  · rw [stops] at ready ⊢
    exact .inl ⟨next, first, ready.mpr rfl, rfl⟩
  · rw [ends] at ready
    exact .inr ⟨none, not_not.mp fun nonzero => Bool.false_ne_true (ready.mp nonzero)⟩

/-- The wait for `DRQ_STAT` fails exactly if no answer has the bit. -/
theorem drqLoop_false {n : Nat} : (drqLoop n s).1 = false ↔ NoAnswer Requests s.input n s.reads := by
  rw [drqLoop_eq]
  rcases polled Requests n s with ⟨next, first, stops⟩ | ⟨none, ends⟩
  · rw [stops]
    exact iff_of_false (by simp) first.not_none
  · rw [ends]
    exact iff_of_true rfl none

theorem drqLoop_silent {n : Nat} (silent : NoAnswer Requests s.input n s.reads) :
    drqLoop n s = (false, { s with reads := s.reads + n }) := by
  rw [drqLoop_eq]
  rcases polled Requests n s with ⟨next, first, _⟩ | ⟨_, ends⟩
  · exact absurd silent first.not_none
  · exact ends

/-- Where `driveBusy` and the read of the error register leave the answers. -/
def SettledAt (input : Nat → BitVec 16) (place next : Nat) : Prop :=
  (∃ stop, FirstAnswer Settled input 10000 place stop ∧ next = stop + 2) ∨
    (NoAnswer Settled input 10000 place ∧ next = place + 10002)

theorem SettledAt.unique {input : Nat → BitVec 16} {place next next' : Nat} (first : SettledAt input place next)
    (second : SettledAt input place next') : next = next' := by
  rcases first with ⟨stop, shown, rfl⟩ | ⟨none, rfl⟩
  · rcases second with ⟨stop', shown', rfl⟩ | ⟨none, rfl⟩
    · rw [shown.unique shown']
    · exact absurd none shown.not_none
  · rcases second with ⟨stop', shown', rfl⟩ | ⟨_, rfl⟩
    · exact absurd none shown'.not_none
    · rfl

theorem resetController_settled (s : Disk) : ∃ next out, SettledAt s.input s.reads next ∧
    s.resetController = { s with reads := next, out } := by
  simp only [resetController, driveBusy, driveBusyLoop_eq, outByte]
  rcases polled Settled 10000 { s with
    out := .byte (s.info.ctrl &&& 0x0f).toNat ((BitVec.ofNat 32 hdCmd).setWidth 8) ::
      .byte 4 ((BitVec.ofNat 32 hdCmd).setWidth 8) :: s.out } with ⟨next, first, stops⟩ | ⟨none, ends⟩
  · exact ⟨next + 2, _, .inl ⟨next, first, rfl⟩, by rw [stops]; rfl⟩
  · exact ⟨s.reads + 10002, _, .inr ⟨none, rfl⟩, by rw [ends]; rfl⟩

end Loops

end Disk

end OperatorSystem.Blk
