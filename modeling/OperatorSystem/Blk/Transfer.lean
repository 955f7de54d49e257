import OperatorSystem.Blk.Partition
import OperatorSystem.Blk.Ports

/-!
# The words of a block

A request for a block of two sectors is served by two calls of `portRead` or
`portWrite`. The calls have the right addresses, `b_data` and `b_data + 512`,
but `portWrite` sends the words at `esi`. The main result `transfers_iff` puts
the exact conditions of the driver and of the single calls together.
-/

namespace OperatorSystem.Blk

open OperatorSystem.Fs

namespace Disk

/-- The words that were written to `HD_DATA`, the first one first. -/
def sentWords (s : Disk) : List (BitVec 16) :=
  s.out.reverse.filterMap fun
    | .word port w => if port = hdData then some w else none
    | .byte _ _ => none

section Ports

variable {s s' s₁ : Disk} {curr : ReqSlot}

/-! ### What the steps of a transfer leave alone -/

/-- The buffers, the pending words and the values of `esi`. -/
structure SameData (s s' : Disk) : Prop where
  queue : s'.queue = s.queue
  ram : s'.ram = s.ram
  esi : s'.esi = s.esi
  writes : s'.writes = s.writes
  input : s'.input = s.input
  sent : s'.sentWords = s.sentWords

theorem SameData.refl : SameData s s := ⟨rfl, rfl, rfl, rfl, rfl, rfl⟩

theorem SameData.trans {s'' : Disk} (first : SameData s s') (second : SameData s' s'') : SameData s s'' :=
  ⟨second.queue.trans first.queue, second.ram.trans first.ram, second.esi.trans first.esi,
    second.writes.trans first.writes, second.input.trans first.input, second.sent.trans first.sent⟩

theorem inByte_data (s : Disk) : SameData s s.inByte.2 := ⟨rfl, rfl, rfl, rfl, rfl, rfl⟩

theorem outByte_data (s : Disk) (port : Nat) (v : BitVec 32) : SameData s (s.outByte port v) := by
  refine ⟨rfl, rfl, rfl, rfl, rfl, ?_⟩
  simp [sentWords, outByte]

theorem SameData.of_reads {reads : Nat} (loop : s' = { s with reads }) : SameData s s' := by
  rw [loop]
  exact ⟨rfl, rfl, rfl, rfl, rfl, rfl⟩

theorem winResult_data (s : Disk) : SameData s s.winResult.2 := by
  simp only [winResult]
  split
  · exact inByte_data s
  · split
    · exact (inByte_data s).trans (inByte_data _)
    · exact inByte_data s

theorem hdOut_data {drive nsect sect head cyl cmd : BitVec 32} {h : Handler}
    (issued : s.hdOut drive nsect sect head cyl cmd h = some s₁) : SameData s s₁ := by
  simp only [hdOut] at issued
  split at issued
  · cases issued
  · split at issued
    · cases issued
    · rw [← Option.some.inj issued]
      have ready : SameData s s.controllerReady.2 := (controllerReady_reads s).elim fun _ => .of_reads
      have armed : SameData s { s.controllerReady.2 with deviceIntr := some h } :=
        ready.trans ⟨rfl, rfl, rfl, rfl, rfl, rfl⟩
      repeat refine SameData.trans ?_ (outByte_data _ _ _)
      exact armed

/-! ### The words of one call -/

theorem outsw_data (n : Nat) (s : Disk) (src : Addr) : (s.outsw hdData src n).sentWords =
    s.sentWords ++ words s.ram src n ∧ (s.outsw hdData src n).queue = s.queue ∧
      (s.outsw hdData src n).ram = s.ram ∧ (s.outsw hdData src n).esi = s.esi ∧
      (s.outsw hdData src n).writes = s.writes := by
  induction n generalizing s src with
  | zero => simp [outsw, words]
  | succ n ih =>
    obtain ⟨sent, queue, ram, esi, writes⟩ :=
      ih { s with out := .word hdData (wordAt s.ram src) :: s.out } (src + 2)
    refine ⟨?_, queue, ram, esi, writes⟩
    have first : sentWords { s with out := .word hdData (wordAt s.ram src) :: s.out } =
        s.sentWords ++ [wordAt s.ram src] := by
      simp [sentWords]
    rw [first, List.append_assoc] at sent
    exact sent

theorem portWrite_data (s : Disk) (buf : Addr) (n : Nat) : (s.portWrite hdData buf n).sentWords =
    s.sentWords ++ words s.ram (s.esi s.writes) n ∧ (s.portWrite hdData buf n).queue = s.queue ∧
      (s.portWrite hdData buf n).ram = s.ram ∧ (s.portWrite hdData buf n).esi = s.esi ∧
      (s.portWrite hdData buf n).writes = s.writes + 1 :=
  outsw_data n { s with writes := s.writes + 1 } (s.esi s.writes)

theorem insw_data (n : Nat) (s : Disk) (buf : Addr) :
    (s.insw buf n).ram = storeWords s.ram buf ((List.range n).map fun i => s.input (s.reads + i)) ∧
      (s.insw buf n).queue = s.queue ∧ (s.insw buf n).input = s.input ∧ (s.insw buf n).reads = s.reads + n := by
  induction n generalizing s buf with
  | zero => simp [insw, storeWords]
  | succ n ih =>
    obtain ⟨ram, queue, input, reads⟩ :=
      ih { s with ram := storeWord s.ram buf (s.input s.reads), reads := s.reads + 1 } (buf + 2)
    have later : ∀ i, s.reads + 1 + i = s.reads + (i + 1) := fun i => by omega
    refine ⟨?_, queue, input, reads.trans (later n)⟩
    simp only [later] at ram
    rw [List.range_succ_eq_map, List.map_cons, List.map_map]
    exact ram

end Ports

/-! ### The two calls for a block -/

/-- The write command for `curr` is given in the state `s`, the drive asks for
data, and its first interrupt reports success and leaves `s₃`. -/
structure WriteRun (curr : ReqSlot) (s s₃ : Disk) : Prop where
  head : s.current = some curr
  block : (s.queue.request curr).nrSectors = 2
  run : ∃ t s₁ s₂ fuel, s.decision curr = .transfer t ∧ t.write = true ∧
    s.hdOut t.drive t.nsect t.sec t.head t.cyl winWrite .writeIntr = some s₁ ∧ (drqLoop 3000 s₁).1 = true ∧
    harddiskRequestLoop curr 1 s = some s₂ ∧ s₂.winResult.1 = false ∧ s₂.writeIntr fuel = some s₃

/-- The drive reports success for the first sector of the request `curr` in the
state `s`, which leaves `s₁`, and for the second sector in `s₁`. -/
structure ReadRun (curr : ReqSlot) (s s₁ : Disk) : Prop where
  head : s.current = some curr
  block : (s.queue.request curr).nrSectors = 2
  first : s.winResult.1 = false
  run : ∃ fuel, s.readIntr fuel = some s₁
  second : s₁.winResult.1 = false

/-- The words that come in from the answer at `reads` on. -/
def incoming (s : Disk) (n : Nat) : List (BitVec 16) := (List.range n).map fun i => s.input (s.reads + i)

section Runs

variable {s s₁ s₃ : Disk} {curr : ReqSlot}

/-- What the two calls of `portWrite` send. -/
theorem WriteRun.sent (run : WriteRun curr s s₃) : s₃.sentWords = s.sentWords ++
    words s.ram (s.esi s.writes) 256 ++ words s.ram (s.esi (s.writes + 1)) 256 := by
  obtain ⟨t, s₁, s₂, fuel, decided, write, issued, asked, started, ok, interrupt⟩ := run.run
  -- until the first block no word goes to the port
  have before : SameData s (drqLoop 3000 s₁).2 := 
    (hdOut_data issued).trans ((drqLoop_reads 3000 s₁).elim fun _ => .of_reads)
  simp only [harddiskRequestLoop, decided, write, issued, asked, if_true, Option.bind_eq_bind, Option.bind_some,
    Option.pure_def, Option.some.injEq] at started
  obtain ⟨sent, queue, ram, esi, writes⟩ := portWrite_data (drqLoop 3000 s₁).2
    ((drqLoop 3000 s₁).2.queue.request curr).buffer 256
  rw [started, before.sent, before.ram, before.esi, before.writes] at sent
  rw [started, before.queue] at queue
  rw [started, before.ram] at ram
  rw [started, before.esi] at esi
  rw [started, before.writes] at writes
  have status := winResult_data s₂
  obtain ⟨r, isHead, rest⟩ := Option.bind_eq_some_iff.mp interrupt
  obtain rfl : curr = r := by
    rw [current, queue] at isHead
    exact Option.some.inj (run.head.symm.trans isHead)
  simp only [ok, Bool.false_eq_true, if_false, setRequest, Queue.setRequest, Function.update_self, status.queue,
    queue, run.block] at rest
  rw [if_pos (by decide)] at rest
  rw [← Option.some.inj rest]
  refine (portWrite_data _ _ 256).1.trans ?_
  change s₂.winResult.2.sentWords ++ words s₂.winResult.2.ram (s₂.winResult.2.esi s₂.winResult.2.writes) 256 = _
  rw [status.sent, status.ram, status.esi, status.writes, sent, ram, esi, writes]

theorem setRequest_ram (s : Disk) (r : ReqSlot) (q : Request) : (s.setRequest r q).ram = s.ram := rfl

/-- The interrupt for the last sector of a request. -/
theorem readIntr_last (head : s.current = some curr) (one : (s.queue.request curr).nrSectors - 1 = 0)
    (ok : s.winResult.1 = false) (fuel : Nat) : ∃ s₂ : Disk,
    s.readIntr fuel = (s₂.endRequest true).bind (harddiskRequest fuel) ∧
    s₂.ram = storeWords s.ram (s.queue.request curr).buffer (s.winResult.2.incoming 256) := by
  have status := winResult_data s
  obtain ⟨ram, queue, _, _⟩ := insw_data 256 s.winResult.2 (s.queue.request curr).buffer
  let q := s.queue.request curr
  refine ⟨(s.winResult.2.insw q.buffer 256).setRequest curr { q with
    errors := 0, buffer := q.buffer + 512, sector := q.sector + 1, nrSectors := q.nrSectors - 1 }, ?_, ?_⟩
  · rw [readIntr, head]
    simp only [Option.bind_eq_bind, Option.bind_some, ok, Bool.false_eq_true, if_false, setRequest, Queue.setRequest,
      Function.update_self, portRead, status.queue, queue]
    rw [if_neg (not_not.mpr one)]
    simp only [q, queue, status.queue]
  · rw [setRequest_ram, ram, status.ram, incoming]

/-- `portRead` stores the two sectors at `b_data` and `b_data + 512`. -/
theorem ReadRun.stored (run : ReadRun curr s s₁) (fuel : Nat) : ∃ s₂ : Disk,
    s₁.readIntr fuel = (s₂.endRequest true).bind (harddiskRequest fuel) ∧
    s₂.ram = storeWords (storeWords s.ram (s.queue.request curr).buffer (s.winResult.2.incoming 256))
      ((s.queue.request curr).buffer + 512) (s₁.winResult.2.incoming 256) := by
  obtain ⟨fuel', first⟩ := run.run
  have status := winResult_data s
  obtain ⟨ram, queue, input, reads⟩ := insw_data 256 s.winResult.2 (s.queue.request curr).buffer
  obtain ⟨r, isHead, rest⟩ := Option.bind_eq_some_iff.mp first
  obtain rfl : curr = r := Option.some.inj (run.head.symm.trans isHead)
  simp only [run.first, Bool.false_eq_true, if_false, setRequest, Queue.setRequest, Function.update_self, portRead,
    status.queue, queue, run.block] at rest
  rw [if_pos (by decide)] at rest
  -- the first interrupt has stored a block and moved the buffer on by it
  have left := Option.some.inj rest
  have ram1 : s₁.ram = storeWords s.ram (s.queue.request curr).buffer (s.winResult.2.incoming 256) := by
    rw [← left, ← status.ram]
    simp only [ram, incoming]
  have head1 : s₁.current = some curr := by
    rw [← left]
    exact run.head
  have request1 : (s₁.queue.request curr).buffer = (s.queue.request curr).buffer + 512 ∧
      (s₁.queue.request curr).nrSectors = 2 - 1 := by
    rw [← left]
    simp only [Function.update_self, and_self]
  obtain ⟨s₂, done, stored⟩ := readIntr_last head1 (by rw [request1.2]; rfl) run.second fuel
  exact ⟨s₂, done, by rw [stored, ram1, request1.1]⟩

/-- The whole of a block goes out right exactly if the words at the two values of `esi` are those of the buffer. -/
theorem WriteRun.sent_iff (run : WriteRun curr s s₃) : s₃.sentWords = s.sentWords ++
      words s.ram (s.queue.request curr).buffer 256 ++ words s.ram ((s.queue.request curr).buffer + 512) 256 ↔
    words s.ram (s.esi s.writes) 256 = words s.ram (s.queue.request curr).buffer 256 ∧
      words s.ram (s.esi (s.writes + 1)) 256 = words s.ram ((s.queue.request curr).buffer + 512) 256 := by
  rw [run.sent, List.append_assoc, List.append_assoc, List.append_cancel_left_eq]
  constructor
  · intro same
    exact List.append_inj same (by rw [length_words, length_words])
  · rintro ⟨first, second⟩
    rw [first, second]

end Runs

section Calls

variable {mem : BitVec 32 → BitVec 8} {ram : Addr → BitVec 8}

/-- Below the end of the address space the addresses of the registers are those of the driver. -/
theorem words_toNat (same : ∀ a, mem a = ram a.toNat) {a : BitVec 32} {n : Nat} (fits : a.toNat + 2 * n ≤ 2 ^ 32) :
    words mem a n = words ram a.toNat n := by
  induction n generalizing a with
  | zero => rfl
  | succ n ih =>
    have one : (a + 1).toNat = a.toNat + 1 := by
      rw [BitVec.toNat_add]
      exact Nat.mod_eq_of_lt (by rw [show (1 : BitVec 32).toNat = 1 from rfl]; omega)
    have first : wordAt mem a = wordAt ram a.toNat := by rw [wordAt, wordAt, same, same, one]
    rw [words, words, first]
    cases n with
    | zero => rfl
    | succ n =>
      have two : (a + 2).toNat = a.toNat + 2 := by
        rw [BitVec.toNat_add]
        exact Nat.mod_eq_of_lt (by rw [show (2 : BitVec 32).toNat = 2 from rfl]; omega)
      rw [ih (by rw [two]; omega), two]

/-- The words that the driver sends in a call of `portWrite` are those of the assembly code. -/
theorem portWrite_regs {s : Disk} {r : Regs} (same : ∀ a, r.mem a = s.ram a.toNat)
    (esi : r.esi.toNat = s.esi s.writes) (fits : r.esi.toNat + 2 * r.nr.toNat ≤ 2 ^ 32) (buf : Addr) :
    (s.portWrite hdData buf r.nr.toNat).sentWords =
      s.sentWords ++ (r.portWrite.out.drop r.out.length).map Prod.snd := by
  rw [(portWrite_data s buf r.nr.toNat).1, Regs.portWrite_eq, List.drop_left, List.map_map, ← esi,
    ← words_toNat same fits]
  simp

end Calls

/-- The words of a block that the driver sends and stores, and the single
calls, each with its exact condition. -/
theorem transfers_iff (curr : ReqSlot) (s : Disk) (r : Regs) :
    (∀ s₃ : Disk, WriteRun curr s s₃ → (s₃.sentWords = s.sentWords ++
        words s.ram (s.queue.request curr).buffer 256 ++ words s.ram ((s.queue.request curr).buffer + 512) 256 ↔
      words s.ram (s.esi s.writes) 256 = words s.ram (s.queue.request curr).buffer 256 ∧
        words s.ram (s.esi (s.writes + 1)) 256 = words s.ram ((s.queue.request curr).buffer + 512) 256)) ∧
    (∀ s₁ : Disk, ReadRun curr s s₁ → ∀ fuel, ∃ s₂ : Disk,
      s₁.readIntr fuel = (s₂.endRequest true).bind (harddiskRequest fuel) ∧
      s₂.ram = storeWords (storeWords s.ram (s.queue.request curr).buffer (s.winResult.2.incoming 256))
        ((s.queue.request curr).buffer + 512) (s₁.winResult.2.incoming 256)) ∧
    (r.Sends ↔ words r.mem r.esi r.nr.toNat = words r.mem r.buf r.nr.toNat ∧ r.edi = r.buf ∧
      2 * r.nr = 0) ∧
    (r.Receives ↔ r.edi = r.buf + 2 * r.nr) :=
  ⟨fun _ run => run.sent_iff, fun _ run => run.stored, Regs.sends_iff r, Regs.receives_iff r⟩

/-- A write request, and a drive that is ready for it all the time. -/
def oneWrite : Disk :=
  { oneRead with
    queue := oneRead.queue.setRequest ⟨0, nrRequest_pos⟩ ⟨0x300, 1, 0, 0, 2, 0x1000, none, none⟩
    input := fun _ => 0x58 }

theorem oneWrite_run : ∃ s₃, WriteRun 0 oneWrite s₃ := by
  obtain ⟨s₁, issued⟩ : ∃ s₁, oneWrite.hdOut 0 2 1 0 0 winWrite .writeIntr = some s₁ :=
    Option.isSome_iff_exists.mp (by decide +kernel)
  obtain ⟨s₂, started⟩ : ∃ s₂, harddiskRequestLoop 0 1 oneWrite = some s₂ :=
    Option.isSome_iff_exists.mp (by decide +kernel)
  obtain ⟨s₃, interrupt⟩ : ∃ s₃, s₂.writeIntr 0 = some s₃ := by
    have done : ((harddiskRequestLoop 0 1 oneWrite).bind (writeIntr 0)).isSome := by decide +kernel
    rw [started] at done
    exact Option.isSome_iff_exists.mp done
  have asked : (oneWrite.hdOut 0 2 1 0 0 winWrite .writeIntr).map (fun s => (drqLoop 3000 s).1) = some true := by
    decide +kernel
  have ok : (harddiskRequestLoop 0 1 oneWrite).map (fun s => s.winResult.1) = some false := by decide +kernel
  rw [issued] at asked
  rw [started] at ok
  exact ⟨s₃, rfl, rfl, ⟨true, 0, 2, 1, 0, 0⟩, s₁, s₂, 0, rfl, rfl, issued, Option.some.inj asked, started,
    Option.some.inj ok, interrupt⟩

/-- A call for one word at `0x1000`, while `esi` is 0. -/
def oneWord : Regs where
  ebx := 0
  ecx := 0
  edx := 0
  esi := 0
  edi := 0
  ebp := 0
  esp := 0x8000
  mem := fun a => if a = 0x1000 then 0x55 else if a = 0x1001 then 0xAA else if a = 0x8009 then 0x10
    else if a = 0x800C then 1 else if a = 0x8004 then 0xF0 else if a = 0x8005 then 1 else 0
  input := fun _ _ => 0
  reads := 0
  out := []

theorem transfers_iff_oneWrite : ∃ s₃ : Disk, WriteRun 0 oneWrite s₃ ∧ (s₃.sentWords = oneWrite.sentWords ++
      words oneWrite.ram 0x1000 256 ++ words oneWrite.ram (0x1000 + 512) 256 ↔
    words oneWrite.ram (oneWrite.esi 0) 256 = words oneWrite.ram 0x1000 256 ∧
      words oneWrite.ram (oneWrite.esi 1) 256 = words oneWrite.ram (0x1000 + 512) 256) := by
  obtain ⟨s₃, run⟩ := oneWrite_run
  exact ⟨s₃, run, (transfers_iff 0 oneWrite oneWord).1 s₃ run⟩

theorem transfers_lost : oneWord.port = 0x1F0 ∧ oneWord.buf = 0x1000 ∧ oneWord.nr = 1 ∧
    wordAt oneWord.mem oneWord.buf = 0xAA55 ∧ oneWord.portWrite.out = [(0x1F0, 0)] ∧ ¬ oneWord.Sends := by
  have port : oneWord.port = 0x1F0 := by decide
  have nr : oneWord.nr = 1 := by decide
  have out : oneWord.portWrite.out = [(0x1F0, 0)] := by
    rw [Regs.portWrite_eq, nr, port]
    decide
  refine ⟨port, by decide, nr, by decide, out, fun sends => ?_⟩
  -- the other registers are lost as well
  exact absurd ((Regs.sends_iff _).mp sends).2.1 (by decide)

end Disk

end OperatorSystem.Blk
