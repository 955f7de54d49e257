import Mathlib.Tactic.SplitIfs
import OperatorSystem.Boot.LoadKernel

/-!
# Reading again after a failure (`floppylib.inc`)

`LOOP_READ_SECTOR_FAIL` stands behind the instruction that loads the number of
sectors, and in front of the one that loads `ah`. What a failed call leaves in
`al` is therefore the number of sectors that the next attempt asks for. The main
result is `readSectorRetrying_iff`.
-/

namespace OperatorSystem.Boot

/-- What a call of `int 13H` asks for. -/
structure Request where
  count : Nat
  cylinder : Nat
  head : Nat
  sector : Nat
deriving DecidableEq

/-- The number of the first sector on a disk with 2 heads and 18 sectors in a track. -/
def Request.number (r : Request) : Nat := (r.cylinder * 2 + r.head) * 18 + (r.sector - 1)

def Request.asking (r : Request) (count : Nat) : Request := { r with count := count }

namespace Cpu

/-- The request in the registers. -/
def request (s : Cpu) : Request := ⟨low s.ax, high s.cx + 256 * (low s.cx / 64), high s.dx, low s.cx % 64⟩

/-- Function 2 of `int 13H` when it fails: of the sectors asked for, as many as `al` says are at `es:bx`. -/
def int13Fails (d : Disk) (returned : Nat) (s : Cpu) : Cpu :=
  ((s.setAx (min (low returned) (low s.ax))).int13 d).setAx returned

/-- `LOOP_READ_SECTOR_FAIL`, with what `ax` holds after each failed attempt; the requests come with the result. -/
def loopReadSectorFail (d : Disk) : List Nat → Cpu → List Request × Cpu
  | [], s =>
    let s := s.setAx (withHigh s.ax 0x02)
    ([s.request], s.int13 d)
  | returned :: failures, s =>
    let s := s.setAx (withHigh s.ax 0x02)
    let (requests, s') := loopReadSectorFail d failures (s.int13Fails d returned)
    (s.request :: requests, s')

/-- `readSector` with the attempts that fail. -/
def readSectorRetrying (d : Disk) (L : Labels) (failures : List Nat) (s : Cpu) : Option (List Request × Cpu) := do
  let s ← s.loadRequest L
  let (requests, s) := s.loopReadSectorFail d failures
  return (requests, s.restore)

variable {d : Disk} {L : Labels} {s : Cpu}

/-- Without a failure this is `readSector`. -/
theorem readSectorRetrying_nil : (s.readSectorRetrying d L []).map Prod.snd = s.readSector d L := by
  rw [readSector_eq, readSectorRetrying]
  cases s.loadRequest L <;> rfl

/-- The registers of a request other than `ax` stay, so only the counts can differ. -/
theorem loopReadSectorFail_requests (failures : List Nat) : (s.loopReadSectorFail d failures).1 =
    (s.ax :: failures).map fun ax => s.request.asking (low ax) := by
  have first : ∀ s : Cpu, (s.setAx (withHigh s.ax 0x02)).request = s.request.asking (low s.ax) := by
    intro s
    simp only [request, Request.asking, setAx_ax, setAx_cx, setAx_dx, low_withHigh]
  induction failures generalizing s with
  | nil => exact congrArg (fun r => [r]) (first s)
  | cons returned failures ih =>
    have later : (((s.setAx (withHigh s.ax 0x02)).int13Fails d returned).loopReadSectorFail d failures).1 =
        (returned :: failures).map fun ax => s.request.asking (low ax) := ih
    change _ :: _ = _
    rw [later, first]
    rfl

/-- A state without its record of the stores. -/
def unlogged (s : Cpu) : Cpu := { s with stores := [] }

theorem exists_of_unlogged {s s' : Cpu} (same : s'.unlogged = s.unlogged) :
    ∃ stores, s' = { s with stores := stores } := by
  cases s
  cases s'
  simp only [unlogged, mk.injEq, and_true] at same ⊢
  simpa using same

theorem restore_unlogged (s : Cpu) : s.restore.unlogged = s.unlogged.restore := rfl

/-- Reading the same sectors twice is reading them once. -/
theorem int13_again {returned : Nat} (same : low returned = low s.ax) :
    (((s.int13Fails d returned).setAx (withHigh returned 0x02)).int13 d).unlogged = (s.int13 d).unlogged := by
  have count : low (withHigh returned 0x02) = low s.ax := low_withHigh.trans same
  have moved : low (min (low returned) (low s.ax)) = low s.ax := by
    rw [same, Nat.min_self, low, low, Nat.mod_mod]
  simp only [int13Fails, int13, unlogged, setAx, count, moved]
  congr 1
  funext a
  split_ifs <;> rfl

theorem loopReadSectorFail_same (failures : List Nat) (same : ∀ ax ∈ failures, low ax = low s.ax) :
    (s.loopReadSectorFail d failures).2.unlogged = ((s.setAx (withHigh s.ax 0x02)).int13 d).unlogged := by
  -- each failed attempt leaves the count for the next one
  induction failures generalizing s with
  | nil => rfl
  | cons returned failures ih =>
    have here : low returned = low s.ax := same returned List.mem_cons_self
    have here' : low returned = low (s.setAx (withHigh s.ax 0x02)).ax := by rw [setAx_ax, low_withHigh, here]
    have later : ∀ ax ∈ failures, low ax = low ((s.setAx (withHigh s.ax 0x02)).int13Fails d returned).ax := by
      intro ax member
      exact (same ax (List.mem_cons_of_mem _ member)).trans here.symm
    rw [loopReadSectorFail]
    exact (ih later).trans (int13_again here')

/-- The sectors are at `es:bx`, and the arguments are as before. -/
structure Delivered (d : Disk) (s s' : Cpu) : Prop where
  ax : s'.ax = s.ax
  cx : s'.cx = s.cx
  bx : s'.bx = s.bx
  es : s'.es = s.es
  data : ∀ a, s.Buffer s.cx a →
    s'.mem a = d (s.ax + (a - phys s.es s.bx) / 512) ((a - phys s.es s.bx) % 512)

theorem ReadSector.delivered {s' s'' : Cpu} (read : ReadSector d s s') (same : s''.unlogged = s'.unlogged) :
    Delivered d s s'' := by
  obtain ⟨stores, rfl⟩ := exists_of_unlogged same
  exact ⟨read.ax, read.cx, read.aside.bx, read.aside.es, read.data⟩

/-- All attempts ask for the wanted sectors, and these are delivered, exactly if every failed attempt
leaves the wanted count in `al`. -/
theorem readSectorRetrying_iff (track : s.byte L.secPerTrk = 18) (apart : L.secPerTrk + 6 < s.sp) (small : s.ax < 4608)
    (count : s.cx < 256) (inside : s.sp ≤ 0xA000)
    (clear : ∀ a, s.Buffer s.cx a → a < phys setupSeg 0 ∨ phys setupSeg 0xA000 ≤ a) (failures : List Nat) :
    ∃ wanted requests s', wanted.count = s.cx ∧ wanted.number = s.ax ∧
      s.readSectorRetrying d L failures = some (requests, s') ∧ requests.length = failures.length + 1 ∧
        (((∀ r ∈ requests, r = wanted) ∧ Delivered d s s') ↔ ∀ ax ∈ failures, low ax = s.cx) := by
  -- before the first `int 13h` the registers hold what was asked for
  obtain ⟨s1, loaded, request⟩ := loadRequest_spec (s := s) track apart small count inside
  have requests := loopReadSectorFail_requests (d := d) (s := s1) failures
  have al : low s1.ax = s.cx := by
    rw [request.count]
    exact Nat.mod_eq_of_lt count
  refine ⟨s1.request, (s1.loopReadSectorFail d failures).1, (s1.loopReadSectorFail d failures).2.restore, al,
    request.place, ?_, ?_, ?_⟩
  · rw [readSectorRetrying, loaded]
    rfl
  · rw [requests, List.length_map, List.length_cons]
  · constructor
    · rintro ⟨all, -⟩ ax member
      -- each failure was followed by a request with the `al` that it left
      have asked : s1.request.asking (low ax) ∈ (s1.loopReadSectorFail d failures).1 := by
        rw [requests]
        exact List.mem_map_of_mem (List.mem_cons_of_mem _ member)
      exact (congrArg Request.count (all _ asked)).trans al
    · intro same
      -- with `al` kept, the last request is the first one again
      have kept : ∀ ax ∈ failures, low ax = low s1.ax := fun ax member => (same ax member).trans al.symm
      constructor
      · intro r member
        rw [requests, List.mem_map] at member
        obtain ⟨ax, listed, rfl⟩ := member
        have equal : low ax = low s1.ax := by
          rcases List.mem_cons.mp listed with rfl | failed
          · rfl
          · exact kept ax failed
        rw [equal]
        rfl
      · obtain ⟨s', done, read⟩ := readSector_spec (d := d) (s := s) track apart small count inside clear
        rw [readSector_eq, loaded, Option.map_some, Option.some.injEq] at done
        refine read.delivered ?_
        rw [← done, restore_unlogged, restore_unlogged, loopReadSectorFail_same failures kept]

/-- A first attempt that fails after its one sector. -/
theorem readSectorRetrying_iff_one :
    ∃ wanted requests s', wanted.count = startCpu.cx ∧ wanted.number = startCpu.ax ∧
      startCpu.readSectorRetrying (fileDisk 0) labels [0x1001] = some (requests, s') ∧
        requests.length = [0x1001].length + 1 ∧
        (((∀ r ∈ requests, r = wanted) ∧ Delivered (fileDisk 0) startCpu s') ↔
          ∀ ax ∈ [0x1001], low ax = startCpu.cx) := by
  refine readSectorRetrying_iff (by decide) (by decide) (by decide) (by decide) (by decide) ?_ [0x1001]
  rintro a ⟨-, below⟩
  have short : a < 0x50200 := below
  exact .inl (Nat.lt_trans short (by decide))

/-- A first attempt that runs into a timeout with no sector read: the second one asks for no sector, and succeeds. -/
theorem readSectorRetrying_timeout : ∃ requests s',
    startCpu.readSectorRetrying (fun _ _ => 0x7F) labels [0x8000] = some (requests, s') ∧
      ¬ (∀ r ∈ requests, ∀ r' ∈ requests, r = r') ∧ ¬ Delivered (fun _ _ => 0x7F) startCpu s' := by
  have run : (startCpu.readSectorRetrying (fun _ _ => 0x7F) labels [0x8000]).map
      (fun p => (p.1, p.2.mem (phys baseOfKernel 0))) = some ([⟨1, 0, 0, 3⟩, ⟨0, 0, 0, 3⟩], 0) := by
    decide
  obtain ⟨⟨requests, s'⟩, done, same⟩ := Option.map_eq_some_iff.mp run
  obtain ⟨rfl, byte⟩ := Prod.mk.injEq _ _ _ _ ▸ same
  refine ⟨_, s', done, by decide, fun delivered => ?_⟩
  have first := delivered.data (phys baseOfKernel 0) ⟨Nat.le_refl _, by decide⟩
  rw [byte] at first
  exact absurd first (by decide)

end Cpu

end OperatorSystem.Boot
