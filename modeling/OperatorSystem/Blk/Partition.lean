import Mathlib.Logic.Relation
import OperatorSystem.Blk.Dispatch

/-!
# The bounds of a partition

`harddiskRequest` compares the sector of a request, which counts from the start
of its partition, with the last sector of the partition on the disk. The main
result `inBounds_iff` gives the requests for which the comparison is right.
-/

namespace OperatorSystem.Blk.Disk

open OperatorSystem.Fs

/-! ### The transfers of a call -/

/-- A round of `harddiskRequest` that goes back to `repeat`. -/
inductive Round (curr : ReqSlot) : Disk → Disk → Prop
  | reject {s s' : Disk} (decided : s.decision curr = .reject) (ended : s.endRequest false = some s') :
      Round curr s s'
  | noDrq {s s₁ s' : Disk} {t : Transfer} (decided : s.decision curr = .transfer t)
      (write : t.write = true)
      (issued : s.hdOut t.drive t.nsect t.sec t.head t.cyl winWrite .writeIntr = some s₁)
      (silent : (drqLoop 3000 s₁).1 = false) (bad : (drqLoop 3000 s₁).2.badRwIntr = some s') :
      Round curr s s'

theorem Round.loop {curr : ReqSlot} {s s' : Disk} (round : Round curr s s') (fuel : Nat) :
    harddiskRequestLoop curr (fuel + 1) s = harddiskRequestLoop curr fuel s' := by
  cases round with
  | reject decided ended => rw [harddiskRequestLoop, decided, ended, Option.bind_some]
  | noDrq decided write issued silent bad =>
    simp [harddiskRequestLoop, decided, write, issued, silent, bad]

/-- `harddiskRequest` calls `hdOut` for the transfer `t` in some round. -/
def Issues (curr : ReqSlot) (s : Disk) (t : Transfer) : Prop :=
  ∃ s', Relation.ReflTransGen (Round curr) s s' ∧ s'.decision curr = .transfer t

/-- The loop of `harddiskRequest` does reach the call of `hdOut`. -/
theorem Issues.loop {curr : ReqSlot} {s : Disk} {t : Transfer} (issued : Issues curr s t) :
    ∃ n s', s'.decision curr = .transfer t ∧
      ∀ fuel, harddiskRequestLoop curr (fuel + n) s = harddiskRequestLoop curr fuel s' := by
  obtain ⟨s', rounds, decided⟩ := issued
  induction rounds using Relation.ReflTransGen.head_induction_on with
  | refl => exact ⟨0, s', decided, fun _ => rfl⟩
  | head round _ ih =>
    obtain ⟨n, s'', decided', reaches⟩ := ih
    refine ⟨n + 1, s'', decided', ?_⟩
    intro fuel
    rw [← Nat.add_assoc, round.loop]
    exact reaches fuel

/-- The first sector that the transfer addresses, counted from the start of the disk. -/
def firstSector (info : HardDisk) (t : Transfer) : Nat :=
  (t.cyl.toNat * info.head.toNat + t.head.toNat) * info.sector.toNat + (t.sec.toNat - 1)

/-! ### The comparison -/

/-- What `makeRequest` puts into a request for the partition `d`. -/
structure Made (d : Fin 5) (q : Request) : Prop where
  dev : q.dev = 0x300 + d.val
  nrSectors : q.nrSectors = 2
  cmd : q.cmd = 0 ∨ q.cmd = 1

/-- `addRequest` changes nothing of a request but its link. -/
theorem addRequest_request {q q' : Queue} {m : Nat} {req : ReqSlot} (done : q.addRequest m req = some q') :
    ∃ next, q'.request req = { q.request req with next } := by
  obtain ⟨heads, cleared⟩ :=
    Queue.clearDirt_eq (q.setRequest req { q.request req with next := none }) req
  simp only [Queue.addRequest, cleared] at done
  split at done
  · rw [← Option.some.inj done]
    exact ⟨none, by simp⟩
  · obtain ⟨tmp, _, result⟩ := Option.bind_eq_some_iff.mp done
    rw [← Option.some.inj result]
    by_cases here : tmp = req
    · exact ⟨some req, by simp [Queue.setRequest, here]⟩
    · exact ⟨_, by simp [Queue.setRequest, Function.update_of_ne (Ne.symm here)]; rfl⟩

/-- `makeRequest` queues such a request for the block of the buffer. -/
theorem made_of_makeRequest {q q' : Queue} {m : Nat} {rw : Rw} {b : Addr} {req : ReqSlot} {d : Fin 5}
    (dev : (q.heads b).dev = BitVec.ofNat 16 (0x300 + d.val))
    (free : ((Queue.searched rw).find? fun r => (q.request r).dev < 0) = some req)
    (done : q.makeRequestRepeat m rw b = some q') :
    Made d (q'.request req) ∧ (q'.request req).sector = (q.heads b).blockNr <<< 1 := by
  simp only [Queue.makeRequestRepeat, free] at done
  obtain ⟨next, queued⟩ := addRequest_request done
  simp only [Queue.setRequest_request, Function.update_self, dev] at queued
  rw [queued]
  refine ⟨⟨?_, rfl, ?_⟩, rfl⟩
  · simp
    omega
  · cases rw
    · exact .inl rfl
    · exact .inr rfl
    · exact .inl rfl
    · exact .inr rfl

/-- No reset is pending, and the geometry of the drive is known. -/
structure Ready (s : Disk) : Prop where
  reset : s.reset = false
  recalibrate : s.recalibrate = false
  sector : s.info.sector ≠ 0
  head : s.info.head ≠ 0

/-- The comparison lets the request through. -/
def Accepted (part : Hd) (sector : BitVec 32) : Prop :=
  ¬ sector + 2 > part.startSector + part.cntSectors - 1

section Decision

variable {s : Disk} {curr : ReqSlot} {d : Fin 5}

theorem minor_of_made {q : Request} (made : Made d q) :
    BitVec.ofInt 32 q.dev &&& 0xff = BitVec.ofNat 32 d.val := by
  rw [made.dev]
  clear made
  revert d
  decide

/-- The partitions all belong to the first drive. -/
theorem minor_lt (d : Fin 5) :
    ¬ BitVec.ofNat 32 d.val ≥ 5 ∧ (BitVec.ofNat 32 d.val).toNat = d.val ∧
      BitVec.ofNat 32 d.val / 5 = 0 := by
  revert d
  decide

/-- The transfer for a request of the partition `part` that the comparison lets through. -/
def transferOf (info : HardDisk) (part : Hd) (q : Request) : Transfer :=
  let block := q.sector + part.startSector
  { write := q.cmd = 1
    drive := 0
    nsect := 2
    sec := block % info.sector + 1
    head := block / info.sector % info.head
    cyl := block / info.sector / info.head }

theorem decision_made (made : Made d (s.queue.request curr)) (t : Transfer) :
    s.decision curr = .transfer t ↔
      (Accepted (s.hd d) (s.queue.request curr).sector ∧ Ready s) ∧
        t = transferOf s.info (s.hd d) (s.queue.request curr) := by
  have minor := minor_of_made made
  obtain ⟨small, index, drive⟩ := minor_lt d
  simp only [decision, minor, small, index, drive, false_or, made.nrSectors]
  constructor
  · intro decided
    split at decided
    · cases decided
    next accepted =>
      split at decided
      · cases decided
      next sector =>
        split at decided
        · cases decided
        next head =>
          split at decided
          · cases decided
          -- the checks come in the order of the source
          next reset =>
            split at decided
            · cases decided
            next recalibrate =>
              have ready : Ready s := ⟨by simpa using reset, by simpa using recalibrate, sector, head⟩
              refine ⟨⟨accepted, ready⟩, ?_⟩
              split at decided
              next write =>
                cases decided
                simp [transferOf, write]
              next notWrite =>
                split at decided
                · cases decided
                  simp [transferOf, notWrite]
                · cases decided
  · rintro ⟨⟨accepted, ready⟩, rfl⟩
    rw [if_neg accepted, if_neg ready.sector, if_neg ready.head]
    rcases made.cmd with read | write
    · simp [ready.reset, ready.recalibrate, read, transferOf]
    · simp [ready.reset, ready.recalibrate, write, transferOf]

/-- A request that has been completed is turned down from then on. -/
theorem decision_ended (ended : (s.queue.request curr).dev = -1) : s.decision curr = .reject := by
  simp [decision, ended]

/-- The transfer addresses the sectors that the request means. -/
theorem firstSector_transferOf (info : HardDisk) (part : Hd) (q : Request) (sector : info.sector ≠ 0) :
    firstSector info (transferOf info part q) = (q.sector + part.startSector).toNat := by
  generalize blockEq : q.sector + part.startSector = block
  have positive : 0 < info.sector.toNat := by
    have := BitVec.toNat_ne_iff_ne.mpr sector
    simp at this
    omega
  have secLt := Nat.mod_lt block.toNat positive
  have sectorLt := info.sector.isLt
  have sec : (block % info.sector + 1).toNat - 1 = block.toNat % info.sector.toNat := by
    rw [BitVec.toNat_add, BitVec.toNat_umod]
    simp
    omega
  simp only [firstSector, transferOf, blockEq, sec]
  rw [BitVec.toNat_udiv, BitVec.toNat_umod, BitVec.toNat_udiv, Nat.mul_comm (_ / _), Nat.div_add_mod,
    Nat.mul_comm, Nat.div_add_mod]

end Decision

/-! ### The rounds of a call -/

/-- What a round leaves alone: the drive, the partitions, the head of the queue
and, unless it has been completed, the request itself. -/
structure Follows (curr : ReqSlot) (s s' : Disk) : Prop where
  info : s'.info = s.info
  hd : s'.hd = s.hd
  current : s'.current = s.current
  request : (s'.queue.request curr).dev = -1 ∨
    ∃ errors, s'.queue.request curr = { s.queue.request curr with errors }

section Rounds

variable {curr : ReqSlot} {s s' s'' : Disk}

theorem Follows.refl : Follows curr s s := ⟨rfl, rfl, rfl, .inr ⟨_, rfl⟩⟩

theorem Follows.trans (first : Follows curr s s') (second : Follows curr s' s'') : Follows curr s s'' where
  info := second.info.trans first.info
  hd := second.hd.trans first.hd
  current := second.current.trans first.current
  request := by
    rcases second.request with ended | ⟨errors, same⟩
    · exact .inl ended
    · rw [same]
      rcases first.request with ended | ⟨errors', same'⟩
      · exact .inl ended
      · exact .inr ⟨errors, by rw [same']⟩

/-- A step that only works on the ports. -/
theorem Follows.of_queue (queue : s'.queue = s.queue) (info : s'.info = s.info) (hd : s'.hd = s.hd) :
    Follows curr s s' :=
  ⟨info, hd, by simp only [Disk.current, queue], .inr ⟨_, by rw [queue]⟩⟩

theorem endRequest_follows {uptodate : Bool} (head : s.current = some curr)
    (done : s.endRequest uptodate = some s') : Follows curr s s' := by
  obtain ⟨r, isHead, result⟩ := Option.bind_eq_some_iff.mp done
  obtain rfl : curr = r := Option.some.inj (head.symm.trans isHead)
  obtain rfl := Option.some.inj result
  refine ⟨rfl, rfl, ?_, ?_⟩
  · cases bh : (s.queue.request curr).bh with
    | none => simp [current, Queue.endRequest, Queue.finishBuffer, Queue.setRequest, bh]
    | some b =>
      simp [current, Queue.endRequest, Queue.finishBuffer, Queue.setRequest, Queue.unlockBuffer,
        Queue.setHead, bh]
  · exact .inl (by simp [Queue.endRequest, Queue.setRequest])

theorem badRwIntr_follows (head : s.current = some curr) (done : s.badRwIntr = some s') :
    Follows curr s s' := by
  obtain ⟨r, isHead, rest⟩ := Option.bind_eq_some_iff.mp done
  obtain rfl : curr = r := Option.some.inj (head.symm.trans isHead)
  obtain ⟨s₁, counted, result⟩ := Option.bind_eq_some_iff.mp rest
  have raised : Follows curr s (s.setRequest curr
      { s.queue.request curr with errors := (s.queue.request curr).errors + 1 }) :=
    ⟨rfl, rfl, rfl, .inr ⟨_, by simp [setRequest, Queue.setRequest]; rfl⟩⟩
  have follows : Follows curr s s₁ := by
    simp only [countError] at counted
    split at counted
    · exact raised.trans (endRequest_follows (raised.current.trans head) counted)
    · rw [← Option.some.inj counted]
      exact raised
  rw [← Option.some.inj result]
  split
  · exact ⟨follows.info, follows.hd, follows.current, follows.request⟩
  · exact follows

/-- A loop only reads. -/
theorem Follows.of_reads {reads : Nat} (loop : s' = { s with reads }) : Follows curr s s' := by
  rw [loop]
  exact .of_queue rfl rfl rfl

theorem hdOut_follows {drive nsect sect head cyl cmd : BitVec 32} {h : Handler}
    (done : s.hdOut drive nsect sect head cyl cmd h = some s') : Follows curr s s' := by
  obtain ⟨reads, ready⟩ := controllerReady_reads s
  simp only [hdOut] at done
  split at done
  · cases done
  · split at done
    · cases done
    · rw [← Option.some.inj done]
      apply Follows.of_queue <;> simp only [outByte, ready]

theorem Round.follows (round : Round curr s s') (head : s.current = some curr) : Follows curr s s' := by
  cases round with
  | reject decided ended => exact endRequest_follows head ended
  | noDrq decided write issued silent bad =>
    rename_i s₁ t
    have out : Follows curr s s₁ := hdOut_follows issued
    obtain ⟨reads, loop⟩ := drqLoop_reads 3000 s₁
    have waited := out.trans (Follows.of_reads loop)
    exact waited.trans (badRwIntr_follows (waited.current.trans head) bad)

theorem rounds_follow (rounds : Relation.ReflTransGen (Round curr) s s') (head : s.current = some curr) :
    Follows curr s s' := by
  induction rounds with
  | refl => exact .refl
  | tail _ round ih => exact ih.trans (round.follows (ih.current.trans head))

/-- A request that has been completed stays completed. -/
theorem Follows.ended (follows : Follows curr s s') (ended : (s.queue.request curr).dev = -1) :
    (s'.queue.request curr).dev = -1 := by
  rcases follows.request with ended' | ⟨errors, same⟩
  · exact ended'
  · rw [same]
    exact ended

/-- What a transfer issued in some round says about the state before the call. -/
theorem issues_iff {d : Fin 5} (head : s.current = some curr) (made : Made d (s.queue.request curr))
    (t : Transfer) : Issues curr s t ↔
      (Accepted (s.hd d) (s.queue.request curr).sector ∧ Ready s) ∧
        t = transferOf s.info (s.hd d) (s.queue.request curr) := by
  constructor
  · rintro ⟨s', rounds, decided⟩
    rcases Relation.ReflTransGen.cases_head rounds with rfl | ⟨s₁, round, rest⟩
    · exact (decision_made made t).mp decided
    · have follows := round.follows head
      have onwards := rounds_follow rest (follows.current.trans head)
      cases round with
      | reject _ ended =>
        -- the request has been completed, and nothing revives it
        obtain ⟨r, isHead, result⟩ := Option.bind_eq_some_iff.mp ended
        obtain rfl : curr = r := Option.some.inj (head.symm.trans isHead)
        have dead : (s₁.queue.request curr).dev = -1 := by
          rw [← Option.some.inj result]
          simp [Queue.endRequest, Queue.setRequest]
        rw [decision_ended (onwards.ended dead)] at decided
        cases decided
      | noDrq first =>
        have accepted := ((decision_made made _).mp first).1
        have whole := follows.trans onwards
        rcases whole.request with dead | ⟨errors, same⟩
        · rw [decision_ended dead] at decided
          cases decided
        · have made' : Made d (s'.queue.request curr) := by
            rw [same]
            exact ⟨made.dev, made.nrSectors, made.cmd⟩
          have target := ((decision_made made' t).mp decided).2
          rw [whole.info, whole.hd, same] at target
          exact ⟨accepted, target⟩
  · intro conditions
    exact ⟨s, .refl, (decision_made made t).mpr conditions⟩

end Rounds

/-! ### The exact condition -/

/-- A transfer is issued exactly for the sectors inside the partition `d`, and
stays inside it. -/
structure InBounds (d : Fin 5) (curr : ReqSlot) (s : Disk) : Prop where
  issued : (∃ t, Issues curr s t) ↔
    (s.queue.request curr).sector.toNat + 2 ≤ (s.hd d).cntSectors.toNat
  inside : ∀ t, Issues curr s t →
    (s.hd d).startSector.toNat ≤ firstSector s.info t ∧
      firstSector s.info t + t.nsect.toNat ≤ (s.hd d).startSector.toNat + (s.hd d).cntSectors.toNat

theorem accepted_iff {part : Hd} (noWrap : part.startSector.toNat + part.cntSectors.toNat < 2 ^ 32)
    (sector : BitVec 32) : Accepted part sector ↔
      part.startSector.toNat + part.cntSectors.toNat = 0 ∨
        (sector.toNat + 2) % 2 ^ 32 < part.startSector.toNat + part.cntSectors.toNat := by
  simp only [Accepted, gt_iff_lt, BitVec.lt_def, BitVec.toNat_add, BitVec.toNat_sub]
  simp
  omega

theorem inBounds_iff {s : Disk} {curr : ReqSlot} {d : Fin 5} (head : s.current = some curr)
    (made : Made d (s.queue.request curr))
    (noWrap : (s.hd d).startSector.toNat + (s.hd d).cntSectors.toNat < 2 ^ 32) :
    InBounds d curr s ↔
      if (s.queue.request curr).sector.toNat + 2 ≤ (s.hd d).cntSectors.toNat then
        Ready s ∧ (s.queue.request curr).sector.toNat + 2 <
          (s.hd d).startSector.toNat + (s.hd d).cntSectors.toNat
      else
        ¬ Ready s ∨ 0 < (s.hd d).startSector.toNat + (s.hd d).cntSectors.toNat ∧
          (s.hd d).startSector.toNat + (s.hd d).cntSectors.toNat ≤
            ((s.queue.request curr).sector.toNat + 2) % 2 ^ 32 := by
  -- the check compares the sector, counted within the partition, with an end counted on the disk
  have accepted := accepted_iff noWrap (s.queue.request curr).sector
  have exists_iff : (∃ t, Issues curr s t) ↔
      Accepted (s.hd d) (s.queue.request curr).sector ∧ Ready s := by
    simp only [issues_iff head made, exists_and_left, exists_eq, and_true]
  have small := (s.queue.request curr).sector.isLt
  have inside : (s.queue.request curr).sector.toNat + 2 ≤ (s.hd d).cntSectors.toNat →
      ∀ t, Issues curr s t → (s.hd d).startSector.toNat ≤ firstSector s.info t ∧
        firstSector s.info t + t.nsect.toNat ≤ (s.hd d).startSector.toNat + (s.hd d).cntSectors.toNat := by
    intro fits t issued
    obtain ⟨⟨_, ready⟩, rfl⟩ := (issues_iff head made t).mp issued
    rw [firstSector_transferOf _ _ _ ready.sector, BitVec.toNat_add]
    have two : (transferOf s.info (s.hd d) (s.queue.request curr)).nsect.toNat = 2 := rfl
    omega
  constructor
  · intro inBounds
    have issued := exists_iff.symm.trans inBounds.issued
    rw [accepted] at issued
    split
    next fits =>
      obtain ⟨reached, ready⟩ := issued.mpr fits
      refine ⟨ready, ?_⟩
      omega
    next tooFar =>
      -- nothing was issued: the drive was not ready, or the sector was past even that end
      by_cases ready : Ready s
      · have refused := mt issued.mp tooFar
        rw [and_iff_left ready] at refused
        right
        omega
      · exact .inl ready
  · intro condition
    split at condition
    next fits =>
      refine ⟨?_, inside fits⟩
      rw [exists_iff, accepted]
      simp only [fits, iff_true]
      refine ⟨?_, condition.1⟩
      omega
    next tooFar =>
      have refused : ¬ ∃ t, Issues curr s t := by
        rw [exists_iff, accepted]
        rintro ⟨reached, ready⟩
        rcases condition with notReady | bound
        · exact notReady ready
        · omega
      constructor
      · exact iff_of_false refused tooFar
      · intro t issued
        exact absurd ⟨t, issued⟩ refused

/-! ### Two requests -/

/-- The first block of the whole disk. -/
theorem inBounds_iff_oneRead : InBounds 0 0 oneRead ↔ Ready oneRead ∧ 2 < 6800 :=
  inBounds_iff rfl ⟨rfl, rfl, .inl rfl⟩ (by decide)

/-- The first block of a partition whose entry has never been set. -/
def unsetRead : Disk :=
  { oneRead with
    queue := oneRead.queue.setRequest ⟨0, nrRequest_pos⟩ ⟨0x301, 0, 0, 0, 2, 0, none, none⟩
    hd := fun _ => ⟨0, 0⟩ }

theorem inBounds_lost : ¬ ∀ (s : Disk) (curr : ReqSlot) (d : Fin 5), s.current = some curr →
    Made d (s.queue.request curr) →
    (s.hd d).startSector.toNat + (s.hd d).cntSectors.toNat < 2 ^ 32 → InBounds d curr s := by
  intro always
  have inBounds := always unsetRead 0 1 rfl ⟨rfl, rfl, .inl rfl⟩ (by decide)
  have decided : ∃ t, unsetRead.decision 0 = .transfer t := ⟨_, rfl⟩
  obtain ⟨t, transfer⟩ := decided
  have fits := inBounds.issued.mp ⟨t, unsetRead, .refl, transfer⟩
  revert fits
  decide

end OperatorSystem.Blk.Disk
