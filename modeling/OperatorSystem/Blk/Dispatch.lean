import OperatorSystem.Blk.Answers

/-!
# The dispatch of the disk interrupt

`initHarddisk` copies the value of `DEVICE_INTR` into the interrupt table once,
and at that time it is NULL; every command arms `DEVICE_INTR` only.
-/

namespace OperatorSystem.Blk.Disk

open OperatorSystem.Fs Transition

/-! ### The driver leaves the interrupt table alone -/

section Kept

variable {s s' : Disk}

@[simp] theorem outByte_irqHandler (port : Nat) (v : BitVec 32) :
    (s.outByte port v).irqHandler = s.irqHandler := rfl

@[simp] theorem inByte_irqHandler : s.inByte.2.irqHandler = s.irqHandler := rfl

@[simp] theorem insw_irqHandler (buf : Addr) (n : Nat) : (s.insw buf n).irqHandler = s.irqHandler := by
  induction n generalizing s buf with
  | zero => rfl
  | succ n ih => exact ih (buf + 2)

@[simp] theorem outsw_irqHandler (port : Nat) (src : Addr) (n : Nat) :
    (s.outsw port src n).irqHandler = s.irqHandler := by
  induction n generalizing s src with
  | zero => rfl
  | succ n ih => exact ih (src + 2)

theorem endRequest_irqHandler {uptodate : Bool} (done : s.endRequest uptodate = some s') :
    s'.irqHandler = s.irqHandler := by
  obtain ⟨curr, _, result⟩ := Option.bind_eq_some_iff.mp done
  obtain rfl := Option.some.inj result
  rfl

@[simp] theorem winResult_irqHandler : s.winResult.2.irqHandler = s.irqHandler := by
  simp only [winResult]
  split
  · rfl
  · split <;> rfl

theorem badRwIntr_irqHandler (done : s.badRwIntr = some s') : s'.irqHandler = s.irqHandler := by
  obtain ⟨curr, _, rest⟩ := Option.bind_eq_some_iff.mp done
  obtain ⟨s₁, counted, result⟩ := Option.bind_eq_some_iff.mp rest
  have kept : s₁.irqHandler = s.irqHandler := by
    simp only [countError] at counted
    split at counted
    · have kept := endRequest_irqHandler counted
      exact kept
    · rw [← Option.some.inj counted]
      rfl
  rw [← Option.some.inj result]
  split
  · exact kept
  · exact kept

@[simp] theorem driveBusyLoop_irqHandler (n : Nat) : (driveBusyLoop n s).irqHandler = s.irqHandler := by
  obtain ⟨reads, loop⟩ := driveBusyLoop_reads n s
  rw [loop]

theorem controllerReady_irqHandler : s.controllerReady.2.irqHandler = s.irqHandler := by
  obtain ⟨reads, loop⟩ := controllerReady_reads s
  rw [loop]

theorem resetController_irqHandler : s.resetController.irqHandler = s.irqHandler := by
  simp [resetController, driveBusy]

theorem hdOut_irqHandler {drive nsect sect head cyl cmd : BitVec 32} {h : Handler}
    (done : s.hdOut drive nsect sect head cyl cmd h = some s') : s'.irqHandler = s.irqHandler := by
  simp only [hdOut] at done
  split at done
  · cases done
  · split at done
    · cases done
    · rw [← Option.some.inj done]
      simp only [outByte_irqHandler, controllerReady_irqHandler]

@[simp] theorem drqLoop_irqHandler (n : Nat) : (drqLoop n s).2.irqHandler = s.irqHandler := by
  obtain ⟨reads, loop⟩ := drqLoop_reads n s
  rw [loop]

theorem harddiskRequestLoop_irqHandler {curr : ReqSlot} {fuel : Nat}
    (done : harddiskRequestLoop curr fuel s = some s') : s'.irqHandler = s.irqHandler := by
  induction fuel generalizing s with
  | zero => cases done
  | succ fuel ih =>
    rw [harddiskRequestLoop] at done
    -- one case for each decision, in the order of the source
    split at done
    · obtain ⟨s₁, ended, rest⟩ := Option.bind_eq_some_iff.mp done
      exact (ih rest).trans (endRequest_irqHandler ended)
    · cases done
    · have kept := hdOut_irqHandler done
      rw [resetController_irqHandler] at kept
      exact kept
    · have kept := hdOut_irqHandler done
      exact kept
    · split at done
      · obtain ⟨s₁, issued, rest⟩ := Option.bind_eq_some_iff.mp done
        have kept := hdOut_irqHandler issued
        simp only at rest
        split at rest
        · rw [← Option.some.inj rest]
          simp [portWrite, kept]
        · obtain ⟨s₂, bad, again⟩ := Option.bind_eq_some_iff.mp rest
          rw [ih again, badRwIntr_irqHandler bad, drqLoop_irqHandler, kept]
      · exact hdOut_irqHandler done
    · rw [← Option.some.inj done]

theorem harddiskRequest_irqHandler {fuel : Nat} (done : s.harddiskRequest fuel = some s') :
    s'.irqHandler = s.irqHandler := by
  rw [harddiskRequest] at done
  split at done
  · rw [← Option.some.inj done]
  · exact harddiskRequestLoop_irqHandler done

end Kept

/-! ### Runs -/

inductive Event
  /-- The rest of the kernel works on the queue, the memory and the table of drives. -/
  | kernel
  /-- `addRequest` calls `harddiskRequest`. -/
  | request
  /-- `hwint14`, after a command. -/
  | irq

inductive Step : Disk → Event → Disk → Prop
  | kernel {s s' : Disk} (armed : s'.deviceIntr = s.deviceIntr) (table : s'.irqHandler = s.irqHandler)
      (reset : s'.reset = s.reset) (recalibrate : s'.recalibrate = s.recalibrate) :
      Step s .kernel s'
  | request {s s' : Disk} {fuel : Nat} (done : s.harddiskRequest fuel = some s') : Step s .request s'
  | irq {s s' : Disk} {h : Handler} {fuel : Nat} (command : s.deviceIntr ≠ none)
      (entry : s.irqHandler = some h) (done : h.run fuel s = some s') : Step s .irq s'
  /-- `hwint_slave` calls NULL, and nothing is known of what follows. -/
  | irqNull {s s' : Disk} (command : s.deviceIntr ≠ none) (entry : s.irqHandler = none) :
      Step s .irq s'

/-- The disk from `initHarddisk` on; `DEVICE_INTR` is NULL in the kernel image. -/
def system : System Disk Event where
  init s := ∃ image : Disk, image.deviceIntr = none ∧ s = image.initHarddisk
  step := Step

/-- An interrupt finds in the table the handler that the last command has armed. -/
def Dispatched (x : Disk × Event) : Prop :=
  x.2 = .irq → x.1.irqHandler ≠ none ∧ x.1.irqHandler = x.1.deviceIntr

theorem irqHandler_of_step {s s' : Disk} {e : Event} (empty : s.irqHandler = none) (taken : Step s e s')
    (quiet : e ≠ .irq) : s'.irqHandler = none := by
  cases taken with
  | kernel _ table => exact table.trans empty
  | request done => exact (harddiskRequest_irqHandler done).trans empty
  | irq => exact absurd rfl quiet
  | irqNull => exact absurd rfl quiet

/-- Every interrupt of a run is dispatched to the armed handler if and only if
the run takes no interrupt. -/
theorem dispatched_iff {hist : List (Disk × Event)} {s : Disk} (run : Run system hist s) :
    (∀ x ∈ hist, Dispatched x) ↔ ∀ x ∈ hist, x.2 ≠ .irq := by
  apply run.steps_iff (G := fun x => x.2 ≠ .irq) (I := fun s => s.irqHandler = none)
  · rintro _ ⟨image, null, rfl⟩
    exact null
  · exact fun _ _ _ => irqHandler_of_step
  · intro s e _ empty _
    constructor
    · intro dispatched taken
      exact (dispatched taken).1 empty
    · intro quiet taken
      exact absurd taken quiet

/-! ### A read command and its interrupt -/

/-- A drive with one read request for the first sectors of the whole disk. -/
def oneRead : Disk where
  queue :=
    { heads := fun _ => ⟨0, 0, 0x300, false, false, 0, true, none, none, none, none⟩
      request := fun _ => ⟨0x300, 0, 0, 0, 2, 0, none, none⟩
      blkDev := fun _ => ⟨true, some ⟨0, nrRequest_pos⟩⟩
      waiting := []
      outstanding := {⟨0, nrRequest_pos⟩} }
  info := ⟨4, 17, 100, 0, 0⟩
  hd := fun _ => ⟨0, 6800⟩
  deviceIntr := none
  irqHandler := none
  reset := false
  recalibrate := false
  ram := fun _ => 0
  input := fun _ => 0x50
  reads := 0
  out := []
  esi := fun _ => 0
  writes := 0

/-- The read command arms `readIntr`, and its interrupt finds the entry empty. -/
theorem oneRead_interrupted : ∃ s, Run system [(s, .irq), (oneRead.initHarddisk, .request)] s ∧
    s.deviceIntr = some .readIntr ∧ s.irqHandler = none := by
  have issued : (oneRead.initHarddisk.harddiskRequest 1).map (·.deviceIntr) = some (some .readIntr) := by
    decide +kernel
  obtain ⟨s, done, armed⟩ := Option.map_eq_some_iff.mp issued
  have entry : s.irqHandler = none := harddiskRequest_irqHandler done
  have booted : Run system [] oneRead.initHarddisk := .init ⟨oneRead, rfl, rfl⟩
  have reading : Run system [(oneRead.initHarddisk, .request)] s := .step booted (Step.request done)
  exact ⟨s, .step reading (Step.irqNull (by simp [armed]) entry), armed, entry⟩

theorem dispatched_iff_oneRead : ∃ s,
    (∀ x ∈ [(s, Event.irq), (oneRead.initHarddisk, Event.request)], Dispatched x) ↔
      ∀ x ∈ [(s, Event.irq), (oneRead.initHarddisk, Event.request)], x.2 ≠ .irq := by
  obtain ⟨s, run, _⟩ := oneRead_interrupted
  exact ⟨s, dispatched_iff run⟩

/-- The interrupt that ends the read command calls NULL. -/
theorem dispatch_lost :
    ¬ ∀ hist s, Run system hist s → ∀ x ∈ hist, Dispatched x := by
  intro always
  obtain ⟨s, run, _, entry⟩ := oneRead_interrupted
  have dispatched := always _ s run (s, .irq) List.mem_cons_self rfl
  exact dispatched.1 entry

end OperatorSystem.Blk.Disk
