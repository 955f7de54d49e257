import OperatorSystem.Blk.Progress

/-!
# The ports of the disk driver

Every command goes to the registers of the drive, but `resetController` gives
`outByte` its two arguments in the wrong order, so a reset writes to the ports 4
and `ctrl & 0x0f`. The main result `disciplined_iff` says that the driver keeps
to its ports along a run exactly if the run comes to no reset.
-/

namespace OperatorSystem.Blk

open OperatorSystem.Fs Transition

def Out.port : Out → Nat
  | .byte port _ => port
  | .word port _ => port

/-- A register of the drive, or the control port. -/
def AtaPort (port : Nat) : Prop := 0x1f0 ≤ port ∧ port ≤ 0x1f7 ∨ port = 0x3f6

instance (port : Nat) : Decidable (AtaPort port) := inferInstanceAs (Decidable (_ ∨ _))

namespace Disk

section Writes

variable {curr : ReqSlot} {s s' s'' : Disk}

/-- What is written from `s` to `s'` goes to the ports of the drive. -/
def Emits (s s' : Disk) : Prop := ∀ o ∈ s'.out, o ∈ s.out ∨ AtaPort o.port

theorem Emits.of_out (same : s'.out = s.out) : Emits s s' :=
  fun _ member => .inl (same ▸ member)

theorem Emits.trans (first : Emits s s') (second : Emits s' s'') : Emits s s'' := by
  intro o member
  rcases second o member with old | ata
  · exact first o old
  · exact .inr ata

theorem winResult_out : s.winResult.2.out = s.out := by
  simp only [winResult]
  split
  · rfl
  · split <;> rfl

theorem insw_out (n : Nat) (buf : Addr) : (s.insw buf n).out = s.out := by
  induction n generalizing s buf with
  | zero => rfl
  | succ n ih => exact ih (buf + 2)

theorem drqLoop_out (n : Nat) : (drqLoop n s).2.out = s.out := by
  obtain ⟨reads, loop⟩ := drqLoop_reads n s
  rw [loop]

theorem outsw_emits (n : Nat) (src : Addr) : Emits s (s.outsw hdData src n) := by
  induction n generalizing s src with
  | zero => exact .of_out rfl
  | succ n ih =>
    refine Emits.trans ?_ (ih (src + 2))
    intro o member
    rcases List.mem_cons.mp member with rfl | old
    · have data : AtaPort hdData := by decide
      exact .inr data
    · exact .inl old

theorem portWrite_emits (buf : Addr) (n : Nat) : Emits s (s.portWrite hdData buf n) :=
  outsw_emits (s := { s with writes := s.writes + 1 }) n (s.esi s.writes)

theorem hdOut_emits {drive nsect sect head cyl cmd : BitVec 32} {h : Handler}
    (issued : s.hdOut drive nsect sect head cyl cmd h = some s') : Emits s s' := by
  intro o member
  rw [hdOut_out issued] at member
  rcases List.mem_append.mp member with new | old
  · right
    simp only [commandBytes, List.mem_cons, List.not_mem_nil, or_false] at new
    rcases new with rfl | rfl | rfl | rfl | rfl | rfl | rfl | rfl <;> simp only [Out.port] <;> decide
  · exact .inl old

theorem bad_out : (s.bad curr).1.out = s.out := by
  by_cases last : (s.queue.request curr).errors + 1 ≥ maxErrors
  · have stopped : s.bad curr = (_, .ending .errors) := if_pos last
    rw [stopped]
    rfl
  · have goesOn : s.bad curr = (_, .atRepeat) := if_neg last
    rw [goesOn]
    dsimp only
    split
    · rfl
    · rfl

theorem portRead_emits (buf : Addr) (n : Nat) : Emits s (s.portRead buf n) :=
  .of_out (insw_out n buf)

theorem serve_emits (h : Handler) : Emits s (serve h curr s).1 := by
  have status : Emits s s.winResult.2 := .of_out winResult_out
  have wrote : ∀ (s₁ : Disk) (buf : Addr), Emits s s₁ → Emits s (s₁.portWrite hdData buf 256) :=
    fun s₁ buf before => before.trans (portWrite_emits buf 256)
  have arms : ∀ (s₁ : Disk) (q : Request) (h : Option Handler), Emits s s₁ →
      Emits s { s₁.setRequest curr q with deviceIntr := h } := fun _ _ _ before => before
  have changes : ∀ (s₁ : Disk) (q : Request), Emits s s₁ → Emits s (s₁.setRequest curr q) := fun _ _ before => before
  -- the branch of an error writes to no port
  by_cases failed : s.winResult.1 = true
  · have stopped : serve h curr s = s.winResult.2.bad curr := if_pos failed
    rw [stopped]
    exact status.trans (.of_out bad_out)
  · cases h with
    | readIntr =>
      simp only [serve, failed, if_false, Bool.false_eq_true]
      split
      · exact arms _ _ _ (status.trans (portRead_emits _ 256))
      · exact changes _ _ (status.trans (portRead_emits _ 256))
    | writeIntr =>
      simp only [serve, failed, if_false, Bool.false_eq_true]
      split
      · dsimp only
        apply wrote
        exact status
      · exact changes _ _ status
    | recalIntr =>
      simp only [serve, failed, if_false, Bool.false_eq_true]
      exact status

/-- A round that starts no reset keeps to the ports of the drive. -/
theorem round_emits {p : Place} (quiet : ∀ nr, s.decision curr ≠ .resetDrive nr)
    (done : s.round curr = some (s', p)) : Emits s s' := by
  -- one case for each thing that the round may do with the request
  cases decided : s.decision curr with
  | reject =>
    simp only [round, decided, Option.some.injEq, Prod.mk.injEq] at done
    exact .of_out (by rw [← done.1])
  | divideError => simp [round, decided] at done
  | resetDrive nr => exact absurd decided (quiet nr)
  | recalibrateDrive drive =>
    simp only [round, decided, Option.map_eq_some_iff, Prod.mk.injEq] at done
    obtain ⟨s₁, issued, rfl, rfl⟩ := done
    have emits := hdOut_emits issued
    exact emits
  | transfer t =>
    simp only [round, decided] at done
    split at done
    · obtain ⟨s₁, issued, rest⟩ := Option.bind_eq_some_iff.mp done
      -- waiting for the drive reads ports only
      have asked : Emits s (drqLoop 3000 s₁).2 := (hdOut_emits issued).trans (.of_out (drqLoop_out 3000))
      split at rest
      · simp only [Option.pure_def, Option.some.injEq, Prod.mk.injEq] at rest
        obtain ⟨rfl, rfl⟩ := rest
        exact asked.trans (portWrite_emits _ 256)
      · have result : (drqLoop 3000 s₁).2.bad curr = (s', p) := Option.some.inj rest
        have out : ((drqLoop 3000 s₁).2.bad curr).1.out = _ := bad_out
        rw [result] at out
        exact asked.trans (.of_out out)
    · simp only [Option.map_eq_some_iff, Prod.mk.injEq] at done
      obtain ⟨s₁, issued, rfl, rfl⟩ := done
      exact hdOut_emits issued
  | unknownCommand =>
    simp only [round, decided, Option.some.injEq, Prod.mk.injEq] at done
    exact .of_out (by rw [← done.1])

theorem endRequest_out {uptodate : Bool} (done : s.endRequest uptodate = some s') : s'.out = s.out := by
  obtain ⟨curr, _, result⟩ := Option.bind_eq_some_iff.mp done
  rw [← Option.some.inj result]

/-- The two bytes of a reset, as they are written. -/
theorem resetController_out : s.resetController.out =
    .byte (s.info.ctrl &&& 0x0f).toNat 0xf6 :: .byte 4 0xf6 :: s.out := by
  obtain ⟨reads, loop⟩ := driveBusyLoop_reads 10000
    ((s.outByte 4 (BitVec.ofNat 32 hdCmd)).outByte (s.info.ctrl &&& 0x0f).toNat (BitVec.ofNat 32 hdCmd))
  simp only [resetController, driveBusy, outByte] at loop ⊢
  rw [loop]
  rfl

end Writes

/-! ### Runs -/

/-- The call of `endRequest` and what follows it up to `repeat`. -/
def finish (curr : ReqSlot) (s : Disk) : Cause → Option Disk
  | .transferred => s.endRequest true
  | .errors => (s.endRequest false).map fun s =>
    if (s.queue.request curr).errors > maxErrors / 2 then { s with reset := true } else s
  | .range => s.endRequest false

/-- Where the driver stands between its pieces. -/
inductive Stage
  | place (p : Place)
  /-- In `resetHd`, behind `resetController`. -/
  | specify (nr : BitVec 32)

/-- `repeat` with a reset pending, for a request in range. -/
def Resets (x : Disk × Stage) : Prop :=
  ∃ s curr nr, x = (s, .place .atRepeat) ∧ s.current = some curr ∧ s.decision curr = .resetDrive nr

/-- The state in which `harddiskRequest` calls `resetHd`. -/
def forgetReset (s : Disk) : Disk := { s with reset := false, recalibrate := true }

inductive Drives : Disk × Stage → Event → Disk × Stage → Prop
  | kernel {s s' : Disk} (armed : s'.deviceIntr = s.deviceIntr) (reset : s'.reset = s.reset)
      (recalibrate : s'.recalibrate = s.recalibrate) (out : s'.out = s.out) :
      Drives (s, .place .waiting) .kernel (s', .place .waiting)
  | call {s : Disk} : Drives (s, .place .waiting) .request (s, .place .atRepeat)
  | irq {s : Disk} {curr : ReqSlot} {h : Handler} (head : s.current = some curr)
      (armed : s.deviceIntr = some h) :
      Drives (s, .place .waiting) .irq ((serve h curr s).1, .place (serve h curr s).2)
  | idle {s : Disk} (empty : s.current = none) : Drives (s, .place .atRepeat) .request (s, .place .waiting)
  | round {s s' : Disk} {curr : ReqSlot} {p : Place} (head : s.current = some curr)
      (quiet : ∀ nr, s.decision curr ≠ .resetDrive nr) (done : s.round curr = some (s', p)) :
      Drives (s, .place .atRepeat) .request (s', .place p)
  | reset {s : Disk} {curr : ReqSlot} {nr : BitVec 32} (head : s.current = some curr)
      (decided : s.decision curr = .resetDrive nr) :
      Drives (s, .place .atRepeat) .request (s.forgetReset.resetController, .specify nr)
  | specify {s s' : Disk} {nr : BitVec 32}
      (done : s.hdOut nr s.info.sector s.info.sector (s.info.head - 1) s.info.cylinder winSpecify .recalIntr =
        some s') : Drives (s, .specify nr) .request (s', .place .waiting)
  | ended {s s' : Disk} {curr : ReqSlot} {c : Cause} (head : s.current = some curr)
      (done : s.finish curr c = some s') : Drives (s, .place (.ending c)) .request (s', .place .atRepeat)

/-- The driver from `initHarddisk` on, before it has written anything. -/
def driver : System (Disk × Stage) Event where
  init x := ∃ image : Disk, image.deviceIntr = none ∧ image.out = [] ∧ x = (image.initHarddisk, .place .waiting)
  step := Drives

/-- All values written so far went to the ports of the drive. -/
def OnPorts (x : Disk × Stage) : Prop := ∀ o ∈ x.1.out, AtaPort o.port

/-- A pending reset first writes 4 and then the control byte to the control port. -/
def ResetFirst (x : Disk × Stage) : Prop :=
  Resets x → ∃ rest, x.1.forgetReset.resetController.out =
    rest ++ [.byte hdCmd ((x.1.info.ctrl &&& 0x0f).setWidth 8), .byte hdCmd 4] ++ x.1.out

theorem finish_out {s s' : Disk} {curr : ReqSlot} {c : Cause} (done : s.finish curr c = some s') :
    s'.out = s.out := by
  cases c with
  | transferred => exact endRequest_out done
  | range => exact endRequest_out done
  | errors =>
    obtain ⟨s₁, ended, rfl⟩ := Option.map_eq_some_iff.mp done
    have out := endRequest_out ended
    split
    · exact out
    · exact out

/-- A step that starts no reset keeps to the ports, a reset does not. -/
theorem onPorts_step {x x' : Disk × Stage} {e : Event} (on : OnPorts x) (taken : Drives x e x') :
    OnPorts x' ∧ ResetFirst x ↔ ¬ Resets x := by
  have keeps : ¬ Resets x → Emits x.1 x'.1 → (OnPorts x' ∧ ResetFirst x ↔ ¬ Resets x) := by
    intro quiet emits
    refine iff_of_true ⟨fun o member => ?_, fun resets => absurd resets quiet⟩ quiet
    rcases emits o member with old | ata
    · exact on o old
    · exact ata
  cases taken with
  | kernel armed reset recalibrate out => exact keeps (by simp [Resets]) (.of_out out)
  | call => exact keeps (by simp [Resets]) (.of_out rfl)
  | irq head armed => exact keeps (by simp [Resets]) (serve_emits _)
  | idle empty =>
    refine keeps ?_ (.of_out rfl)
    rintro ⟨s, curr, nr, same, head, _⟩
    cases same
    rw [empty] at head
    cases head
  | @round s s' curr p head quiet done =>
    refine keeps ?_ (round_emits quiet done)
    rintro ⟨s, r, nr, same, isHead, decided⟩
    cases same
    obtain rfl : curr = r := Option.some.inj (head.symm.trans isHead)
    exact quiet nr decided
  | @reset s curr nr head decided =>
    have resets : Resets (s, .place .atRepeat) := ⟨s, curr, nr, rfl, head, decided⟩
    refine iff_of_false ?_ (not_not.mpr resets)
    rintro ⟨onPorts, _⟩
    -- port 4 is none of the drive's
    have four : AtaPort 4 := by
      refine onPorts (.byte 4 0xf6) ?_
      change _ ∈ s.forgetReset.resetController.out
      rw [resetController_out]
      simp
    revert four
    decide
  | specify done => exact keeps (by simp [Resets]) (hdOut_emits done)
  | ended head done => exact keeps (by simp [Resets]) (.of_out (finish_out done))

/-- The driver keeps to its ports all along a run, and starts its resets as
intended, if and only if the run comes to no reset. -/
theorem disciplined_iff {hist : List ((Disk × Stage) × Event)} {x : Disk × Stage} (run : Run driver hist x) :
    (Along (fun _ x => OnPorts x) hist x ∧ ∀ y ∈ hist, ResetFirst y.1) ↔ ∀ y ∈ hist, ¬ Resets y.1 := by
  refine run.along_iff ?_ ?_
  · rintro _ ⟨image, _, empty, rfl⟩ o member
    change o ∈ image.out at member
    rw [empty] at member
    cases member
  · exact fun hist s a s' on taken => onPorts_step on taken

/-! ### A drive that fails four times -/

/-- The drive answers 0 to every read of its status. -/
def failing : Disk := { oneRead with input := fun _ => 0 }

/-- The request of `failing` after `e` failures. -/
structure Failing (e : Int) (s : Disk) : Prop where
  input : s.input = fun _ => 0
  current : s.current = some 0
  request : s.queue.request 0 = ⟨0x300, 0, e, 0, 2, 0, none, none⟩
  info : s.info = ⟨4, 17, 100, 0, 0⟩
  hd : s.hd = fun _ => ⟨0, 6800⟩
  recalibrate : s.recalibrate = false

theorem Failing.decision {e : Int} {s : Disk} (failing : Failing e s) : s.decision 0 =
    if s.reset then .resetDrive 0 else .transfer ⟨false, 0, 2, 1, 0, 0⟩ := by
  simp only [Disk.decision, failing.request, failing.info, failing.hd, failing.recalibrate]
  rfl

theorem Failing.controllerReady {e : Int} {s : Disk} (failing : Failing e s) :
    s.controllerReady = (99999, { s with reads := s.reads + 1 }) := by
  change controllerReadyLoop (99999 + 1) s = _
  simp [controllerReadyLoop, inByte, failing.input]

/-- The controller takes the command at once. -/
theorem Failing.hdOut {e : Int} {s : Disk} (failing : Failing e s) :
    s.hdOut 0 2 1 0 0 winRead .readIntr = some { s with
      reads := s.reads + 1
      deviceIntr := some .readIntr
      out := commandBytes s.info 0 2 1 0 0 winRead ++ s.out } := by
  have passed : ¬ ((0 : BitVec 32) > 1 ∨ (0 : BitVec 32) > 15) := by decide
  simp only [Disk.hdOut, failing.controllerReady, if_neg passed]
  rfl

/-- The read command. -/
theorem Failing.issue {e : Int} {s : Disk} (failing : Failing e s) (quiet : s.reset = false) :
    ∃ s', s.round 0 = some (s', .waiting) ∧ Failing e s' ∧ s'.reset = false ∧
      s'.deviceIntr = some .readIntr ∧ s'.out = commandBytes s.info 0 2 1 0 0 winRead ++ s.out := by
  have decided := failing.decision
  rw [quiet, if_neg Bool.false_ne_true] at decided
  let s' : Disk := { s with
    reads := s.reads + 1
    deviceIntr := some .readIntr
    out := commandBytes s.info 0 2 1 0 0 winRead ++ s.out }
  have issued : s.round 0 = some (s', .waiting) := by
    simp only [Disk.round, decided, failing.hdOut, Bool.false_eq_true, if_false, Option.map_some]
    rfl
  exact ⟨s', issued, ⟨failing.input, failing.current, failing.request, failing.info, failing.hd,
    failing.recalibrate⟩, quiet, rfl, rfl⟩

/-- An error that is not the last one. -/
theorem bad_few {s : Disk} {curr : ReqSlot} (few : (s.queue.request curr).errors + 1 < maxErrors) :
    s.bad curr = ({ s.setRequest curr { s.queue.request curr with errors := (s.queue.request curr).errors + 1 } with
      reset := decide ((s.queue.request curr).errors + 1 > maxErrors / 2) || s.reset }, .atRepeat) := by
  have goesOn : s.bad curr = (_, .atRepeat) := if_neg (not_le.mpr few)
  rw [goesOn]
  split
  next half => simp [half, setRequest]
  next half => simp [half, setRequest]

/-- The interrupt that reports its failure. -/
theorem Failing.fails {e : Int} {s : Disk} (failing : Failing e s) (few : e + 1 < maxErrors) :
    ∃ s', serve .readIntr 0 s = (s', .atRepeat) ∧ Failing (e + 1) s' ∧
      s'.reset = (decide (e + 1 > maxErrors / 2) || s.reset) ∧ s'.out = s.out := by
  have status : s.winResult = (true, { s with reads := s.reads + 1 }) := by
    simp only [winResult, inByte, failing.input]
    rfl
  have errors : (s.queue.request 0).errors = e := by rw [failing.request]
  have served : serve .readIntr 0 s = ({ s with reads := s.reads + 1 } : Disk).bad 0 := by
    simp only [serve, status, if_true]
  rw [bad_few (by exact errors ▸ few)] at served
  refine ⟨_, served, ⟨failing.input, failing.current, ?_, failing.info, failing.hd, failing.recalibrate⟩, ?_, rfl⟩
  · simp [setRequest, failing.request]
  · simp only [errors]

/-- A command and its failure. -/
theorem Failing.retry {e : Int} {s : Disk} {hist : List ((Disk × Stage) × Event)} (failing : Failing e s)
    (quiet : s.reset = false) (few : e + 1 < maxErrors) (run : Run driver hist (s, .place .atRepeat)) :
    ∃ s₁ s', Run driver (((s₁, .place .waiting), .irq) :: ((s, .place .atRepeat), .request) :: hist)
      (s', .place .atRepeat) ∧ Failing (e + 1) s' ∧ s'.reset = decide (e + 1 > maxErrors / 2) ∧
      s'.out = commandBytes s.info 0 2 1 0 0 winRead ++ s.out := by
  have decided := failing.decision
  rw [quiet, if_neg Bool.false_ne_true] at decided
  obtain ⟨s₁, issued, failing₁, quiet₁, armed, out₁⟩ := failing.issue quiet
  obtain ⟨s₂, served, failing₂, reset, out₂⟩ := failing₁.fails few
  have interrupted : Run driver _ ((serve .readIntr 0 s₁).1, .place (serve .readIntr 0 s₁).2) :=
    (run.step (.round failing.current (by simp [decided]) issued)).step (.irq failing₁.current armed)
  rw [served] at interrupted
  rw [quiet₁, Bool.or_false] at reset
  exact ⟨s₁, s₂, interrupted, failing₂, reset, out₂.trans out₁⟩

/-- The driver after `initHarddisk`, asked for the first block. -/
theorem failing_called : Run driver [((failing.initHarddisk, .place .waiting), .request)]
    (failing.initHarddisk, .place .atRepeat) :=
  .step (.init ⟨failing, rfl, rfl, rfl⟩) .call

theorem failing_fresh : Failing 0 failing.initHarddisk := ⟨rfl, rfl, rfl, rfl, rfl, rfl⟩

/-- Two commands that fail: 16 bytes are written. -/
theorem disciplined_iff_failing : ∃ hist s, Run driver hist (s, .place .atRepeat) ∧
    hist.map Prod.snd = [.irq, .request, .irq, .request, .request] ∧ s.out.length = 16 ∧
    ((Along (fun _ x => OnPorts x) hist (s, .place .atRepeat) ∧ ∀ y ∈ hist, ResetFirst y.1) ↔
      ∀ y ∈ hist, ¬ Resets y.1) := by
  obtain ⟨_, s₁, run₁, failing₁, reset₁, out₁⟩ := failing_fresh.retry rfl (by decide) failing_called
  obtain ⟨_, s₂, run₂, _, _, out₂⟩ := failing₁.retry reset₁ (by decide) run₁
  refine ⟨_, s₂, run₂, rfl, ?_, disciplined_iff run₂⟩
  rw [out₂, out₁]
  rfl

/-- The fourth failure in a row sets `reset`. -/
theorem failing_resets : ∃ hist s, Run driver hist (s, .place .atRepeat) ∧ Resets (s, .place .atRepeat) := by
  obtain ⟨_, s₁, run₁, failing₁, reset₁, _⟩ := failing_fresh.retry rfl (by decide) failing_called
  obtain ⟨_, s₂, run₂, failing₂, reset₂, _⟩ := failing₁.retry reset₁ (by decide) run₁
  obtain ⟨_, s₃, run₃, failing₃, reset₃, _⟩ := failing₂.retry reset₂ (by decide) run₂
  obtain ⟨_, s₄, run₄, failing₄, reset₄, _⟩ := failing₃.retry reset₃ (by decide) run₃
  have decided := failing₄.decision
  rw [reset₄] at decided
  exact ⟨_, s₄, run₄, s₄, 0, 0, rfl, failing₄.current, decided⟩

/-- The driver leaves its ports on the run of four failures. -/
theorem undisciplined : ¬ ∀ hist x, Run driver hist x →
    Along (fun _ x => OnPorts x) hist x ∧ ∀ y ∈ hist, ResetFirst y.1 := by
  intro always
  obtain ⟨hist, s, run, _, curr, nr, same, head, decided⟩ := failing_resets
  cases same
  have on := (always _ _ (run.step (.reset head decided))).1.last (.byte 4 0xf6) (by
    change _ ∈ s.forgetReset.resetController.out
    rw [resetController_out]
    simp)
  revert on
  decide

end Disk

end OperatorSystem.Blk
