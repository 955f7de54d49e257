import Mathlib.Data.Finset.Insert
import OperatorSystem.Fs.BufferHead
import OperatorSystem.Library.PointerList
import OperatorSystem.Library.Transition

/-!
# The request queue of a block device (`ll_rw_blk.c`)

`makeRequest` takes a free slot of `REQUEST_INFO` and `addRequest` links it into
the list behind `current_request`; `endRequest` completes the head of the list.
Its last statement, `curr = curr->next`, only moves a local variable, so the
completed request stays the head of the list with its slot marked free. The
main result `queueExact_iff` says that the list is exactly the outstanding
requests all along a run if and only if the run completes no request.
-/

namespace OperatorSystem.Blk

open OperatorSystem.Fs PointerList

abbrev nrRequest : Nat := 32
def nrBlkDev : Nat := 7
def majorNr : Nat := 3

/-- A slot of `REQUEST_INFO`. -/
abbrev ReqSlot := Fin nrRequest

theorem nrRequest_pos : 0 < nrRequest := by decide

structure Request where
  dev : Int
  cmd : Int
  errors : Int
  sector : BitVec 32
  nrSectors : BitVec 32
  buffer : Addr
  bh : Option Addr
  next : Option ReqSlot

/-- `IN_ORDER(s1, s2)` -/
def inOrder (s1 s2 : Request) : Prop :=
  s1.cmd < s2.cmd ∨ s1.cmd = s2.cmd ∧
    (s1.dev < s2.dev ∨ s1.dev = s2.dev ∧ s1.sector < s2.sector)

instance (s1 s2 : Request) : Decidable (inOrder s1 s2) := by
  unfold inOrder
  infer_instance

structure BlkDev where
  /-- Whether `request_fn` is set. -/
  requestFn : Bool
  currentRequest : Option ReqSlot

structure Queue where
  /-- The buffer heads, by address. -/
  heads : Addr → BufferHead
  /-- `REQUEST_INFO` -/
  request : ReqSlot → Request
  /-- `BLK_DEV_INFO` -/
  blkDev : Nat → BlkDev
  /-- The calls of `makeRequest` asleep on `WAIT_FOR_REQUEST`, with their arguments. -/
  waiting : List (Nat × Rw × Addr)
  /-- The slots queued and not completed since, recorded for the statements only. -/
  outstanding : Finset ReqSlot

namespace Queue

def setHead (s : Queue) (b : Addr) (h : BufferHead) : Queue :=
  { s with heads := Function.update s.heads b h }

def setRequest (s : Queue) (r : ReqSlot) (q : Request) : Queue :=
  { s with request := Function.update s.request r q }

/-- The links of the request table. -/
def link (s : Queue) (r : ReqSlot) : Option ReqSlot := (s.request r).next

/-! ### The functions -/

def initBlkDev (s : Queue) : Queue :=
  { s with
    blkDev := fun _ => { requestFn := false, currentRequest := none }
    request := fun r => { s.request r with dev := -1, next := none } }

/-- The part of `initHarddisk` that concerns the queue. -/
def initHarddisk (s : Queue) : Queue :=
  { s with blkDev := Function.update s.blkDev majorNr { s.blkDev majorNr with requestFn := true } }

def unlockBuffer (s : Queue) (b : Addr) : Queue :=
  s.setHead b { s.heads b with lock := false }

/-- The loop of `addRequest`: the node behind which the request goes. The fuel
bounds the rounds, and `none` means that it has run out. -/
def scan (s : Queue) (req : ReqSlot) : Nat → ReqSlot → Option ReqSlot
  | 0, _ => none
  | fuel + 1, tmp =>
    match s.link tmp with
    | none => some tmp
    | some nx =>
      if (inOrder (s.request tmp) (s.request req) ∨ ¬ inOrder (s.request tmp) (s.request nx)) ∧
          inOrder (s.request req) (s.request nx) then some tmp
      else scan s req fuel nx

/-- `if (req->bh) req->bh->b_dirt = 0` -/
def clearDirt (s : Queue) (req : ReqSlot) : Queue :=
  match (s.request req).bh with
  | none => s
  | some b => s.setHead b { s.heads b with dirt := false }

/-- `addRequest`, without the call of `request_fn`: what the driver does to the
queue from there on are completions. -/
def addRequest (s : Queue) (m : Nat) (req : ReqSlot) : Option Queue :=
  let s := (s.setRequest req { s.request req with next := none }).clearDirt req
  let s := { s with outstanding := insert req s.outstanding }
  match (s.blkDev m).currentRequest with
  | none =>
    some { s with
      blkDev := Function.update s.blkDev m { s.blkDev m with currentRequest := some req } }
  | some first => do
    let tmp ← s.scan req nrRequest first
    let s := s.setRequest req { s.request req with next := s.link tmp }
    return s.setRequest tmp { s.request tmp with next := some req }

/-- The slots `makeRequest` searches, in its order: from the end for a read,
from two thirds of the table on for a write. -/
def searched (rw : Rw) : List ReqSlot :=
  let limit := if rw.cmd = 0 then nrRequest else nrRequest * 2 / 3
  ((List.finRange nrRequest).filter fun r => r.val < limit).reverse

/-- `makeRequest` from its label `repeat` on, with the buffer locked. -/
def makeRequestRepeat (s : Queue) (m : Nat) (rw : Rw) (b : Addr) : Option Queue :=
  match (searched rw).find? fun r => (s.request r).dev < 0 with
  | none =>
    if rw.ahead then some (s.unlockBuffer b)
    else some { s with waiting := (m, rw, b) :: s.waiting }
  | some req =>
    (s.setRequest req
      { dev := (s.heads b).dev.toNat
        cmd := rw.cmd
        errors := 0
        sector := (s.heads b).blockNr <<< 1
        nrSectors := 2
        buffer := (s.heads b).data
        bh := some b
        next := none }).addRequest m req

/-- `makeRequest` for a buffer that is not locked; on a locked one the read-ahead
forms return and the others sleep in `lockBuffer` first. -/
def makeRequest (s : Queue) (m : Nat) (rw : Rw) (b : Addr) : Option Queue :=
  let s := s.setHead b { s.heads b with lock := true }
  if (rw.cmd = 1 ∧ ¬ (s.heads b).dirt) ∨ (rw.cmd = 0 ∧ (s.heads b).uptodate) then
    some (s.unlockBuffer b)
  else s.makeRequestRepeat m rw b

def llRwBlock (s : Queue) (rw : Rw) (b : Addr) : Option Queue :=
  let m := major (s.heads b).dev
  if m ≥ nrBlkDev ∨ ¬ (s.blkDev m).requestFn then some s
  else s.makeRequest m rw b

/-- `if (curr->bh) { curr->bh->b_uptodate = uptodate; unlockBuffer(curr->bh); }` -/
def finishBuffer (s : Queue) (curr : ReqSlot) (uptodate : Bool) : Queue :=
  match (s.request curr).bh with
  | none => s
  | some b => (s.setHead b { s.heads b with uptodate }).unlockBuffer b

/-- `endRequest` on the head `curr`; `BLK_DEV_INFO` is not touched. -/
def endRequest (s : Queue) (curr : ReqSlot) (uptodate : Bool) : Queue :=
  let s := s.finishBuffer curr uptodate
  let s := { s with outstanding := s.outstanding.erase curr }
  s.setRequest curr { s.request curr with dev := -1 }

/-! ### Runs -/

inductive Action
  | initHarddisk
  | llRwBlock (rw : Rw) (b : Addr)
  | retry
  | endRequest (uptodate : Bool)

inductive Step : Queue → Action → Queue → Prop
  | initHarddisk {s : Queue} : Step s .initHarddisk s.initHarddisk
  | llRwBlock {s s' : Queue} {rw : Rw} {b : Addr} (unlocked : (s.heads b).lock = false)
      (done : s.llRwBlock rw b = some s') : Step s (.llRwBlock rw b) s'
  | retry {s s' : Queue} {m : Nat} {rw : Rw} {b : Addr} {before after : List (Nat × Rw × Addr)}
      (asleep : s.waiting = before ++ (m, rw, b) :: after)
      (done : { s with waiting := before ++ after }.makeRequestRepeat m rw b = some s') :
      Step s .retry s'
  | endRequest {s : Queue} {curr : ReqSlot} {uptodate : Bool}
      (head : (s.blkDev majorNr).currentRequest = some curr) :
      Step s (.endRequest uptodate) (s.endRequest curr uptodate)

/-- The queue after `initBlkDev`, with any buffers and nobody asleep. -/
def system : Transition.System Queue Action where
  init s := ∃ s₀ : Queue, s₀.waiting = [] ∧ s₀.outstanding = ∅ ∧ s = s₀.initBlkDev
  step := Step

/-- The list behind `current_request` is finite, without repetition, and its
slots are exactly the outstanding ones. -/
def QueueExact (s : Queue) : Prop :=
  ∃ l, Seg s.link (s.blkDev majorNr).currentRequest l none ∧ l.Nodup ∧
    ∀ r, r ∈ l ↔ r ∈ s.outstanding

/-- A completion makes the successor of the current request the head of the list. -/
def SuccessorNext (s : Queue) (a : Action) : Prop :=
  ∀ uptodate curr s', a = .endRequest uptodate → Step s a s' →
    (s.blkDev majorNr).currentRequest = some curr →
    (s'.blkDev majorNr).currentRequest = s.link curr

/-- What holds while no request is completed: the slots in use are the queued
ones, and only the hard disk has requests, queued or waiting for a slot. -/
structure Filling (s : Queue) : Prop where
  exact : QueueExact s
  used : ∀ r, r ∈ s.outstanding ↔ 0 ≤ (s.request r).dev
  driver : ∀ m, (s.blkDev m).requestFn → m = majorNr
  waiting : ∀ w ∈ s.waiting, w.1 = majorNr

/-- No request is completed. -/
def NotEnding (_ : Queue) : Action → Prop
  | .endRequest _ => False
  | _ => True

/-! ### What the small updates leave alone -/

@[simp] theorem setHead_link (s : Queue) (b : Addr) (h : BufferHead) :
    (s.setHead b h).link = s.link := rfl

@[simp] theorem setHead_request (s : Queue) (b : Addr) (h : BufferHead) :
    (s.setHead b h).request = s.request := rfl

@[simp] theorem setHead_blkDev (s : Queue) (b : Addr) (h : BufferHead) :
    (s.setHead b h).blkDev = s.blkDev := rfl

@[simp] theorem setHead_waiting (s : Queue) (b : Addr) (h : BufferHead) :
    (s.setHead b h).waiting = s.waiting := rfl

@[simp] theorem setHead_outstanding (s : Queue) (b : Addr) (h : BufferHead) :
    (s.setHead b h).outstanding = s.outstanding := rfl

@[simp] theorem setRequest_blkDev (s : Queue) (r : ReqSlot) (q : Request) :
    (s.setRequest r q).blkDev = s.blkDev := rfl

@[simp] theorem setRequest_waiting (s : Queue) (r : ReqSlot) (q : Request) :
    (s.setRequest r q).waiting = s.waiting := rfl

@[simp] theorem setRequest_outstanding (s : Queue) (r : ReqSlot) (q : Request) :
    (s.setRequest r q).outstanding = s.outstanding := rfl

@[simp] theorem setRequest_link (s : Queue) (r : ReqSlot) (q : Request) :
    (s.setRequest r q).link = Function.update s.link r q.next := by
  funext t
  by_cases same : t = r <;> simp [link, setRequest, same]

@[simp] theorem setRequest_request (s : Queue) (r : ReqSlot) (q : Request) :
    (s.setRequest r q).request = Function.update s.request r q := rfl

theorem clearDirt_eq (s : Queue) (req : ReqSlot) :
    ∃ heads, s.clearDirt req = { s with heads } := by
  unfold clearDirt
  split
  · exact ⟨s.heads, rfl⟩
  · exact ⟨_, rfl⟩

theorem finishBuffer_eq (s : Queue) (curr : ReqSlot) (uptodate : Bool) :
    ∃ heads, s.finishBuffer curr uptodate = { s with heads } := by
  unfold finishBuffer
  split
  · exact ⟨s.heads, rfl⟩
  · exact ⟨_, rfl⟩

/-! ### `addRequest` inserts the request into the list -/

/-- On a null-terminated list the loop of `addRequest` stops at a node of the list. -/
theorem scan_returns {s : Queue} {req t : ReqSlot} {l : List ReqSlot} {fuel : Nat}
    (seg : Seg s.link (some t) l none) (enough : l.length ≤ fuel) :
    ∃ u ∈ l, s.scan req fuel t = some u := by
  induction fuel generalizing t l with
  | zero =>
    cases l with
    | nil => cases seg
    | cons x l => exact absurd enough (by simp)
  | succ fuel ih =>
    cases l with
    | nil => cases seg
    | cons x l =>
      obtain ⟨same, rest⟩ := seg
      obtain rfl : t = x := Option.some.inj same
      -- the round at `t` stops there or goes on with the rest
      unfold scan
      split
      · exact ⟨t, List.mem_cons_self, rfl⟩
      next nx found =>
        split
        · exact ⟨t, List.mem_cons_self, rfl⟩
        · rw [found] at rest
          obtain ⟨u, member, stops⟩ := ih rest (by simpa using enough)
          exact ⟨u, List.mem_cons_of_mem t member, stops⟩

/-- A list of the request table is no longer than the table, so the loop has fuel enough. -/
theorem length_le_nrRequest {l : List ReqSlot} (single : l.Nodup) : l.length ≤ nrRequest := by
  simpa using single.length_le_card

/-- The queue that the loop of `addRequest` searches. -/
def queued (s : Queue) (req : ReqSlot) : Queue :=
  let s := (s.setRequest req { s.request req with next := none }).clearDirt req
  { s with outstanding := insert req s.outstanding }

theorem queued_eq (s : Queue) (req : ReqSlot) : ∃ heads, s.queued req =
    { s.setRequest req { s.request req with next := none } with
      heads, outstanding := insert req s.outstanding } := by
  obtain ⟨heads, cleared⟩ := clearDirt_eq (s.setRequest req { s.request req with next := none }) req
  exact ⟨heads, by simp only [queued, cleared, setRequest_outstanding]⟩

/-- `addRequest` behind a device that has requests. -/
theorem addRequest_headed {s : Queue} {m : Nat} {req first : ReqSlot}
    (headed : ((s.queued req).blkDev m).currentRequest = some first) :
    s.addRequest m req = ((s.queued req).scan req nrRequest first).bind fun tmp =>
      let s := (s.queued req).setRequest req { (s.queued req).request req with next := (s.queued req).link tmp }
      some (s.setRequest tmp { s.request tmp with next := some req }) := by
  unfold addRequest
  change (match ((s.queued req).blkDev m).currentRequest with | none => _ | some first => _) = _
  rw [headed]
  rfl

/-- `addRequest` to a device without requests. -/
theorem addRequest_first {s : Queue} {m : Nat} {req : ReqSlot}
    (headed : ((s.queued req).blkDev m).currentRequest = none) :
    s.addRequest m req = some { s.queued req with
      blkDev := Function.update (s.queued req).blkDev m
        { (s.queued req).blkDev m with currentRequest := some req } } := by
  unfold addRequest
  change (match ((s.queued req).blkDev m).currentRequest with | none => _ | some first => _) = _
  rw [headed]
  rfl

/-- The lists of the other slots are left alone. -/
theorem queued_seg {s : Queue} {req : ReqSlot} {p : Option ReqSlot} {l : List ReqSlot}
    (seg : Seg s.link p l none) (fresh : req ∉ l) : Seg (s.queued req).link p l none := by
  obtain ⟨heads, same⟩ := queued_eq s req
  have links : (s.queued req).link = Function.update s.link req none := by
    rw [same]
    exact setRequest_link s req { s.request req with next := none }
  rw [links]
  exact seg.update fresh

/-- Where the loop stops, the request is put in; only links and `b_dirt` change. -/
theorem addRequest_behind {s : Queue} {m : Nat} {req first u : ReqSlot} {before after : List ReqSlot}
    (headed : (s.blkDev m).currentRequest = some first)
    (seg : Seg s.link (some first) (before ++ u :: after) none) (fresh : req ∉ before ++ u :: after)
    (stops : (s.queued req).scan req nrRequest first = some u) :
    ∃ s', s.addRequest m req = some s' ∧ s'.blkDev = s.blkDev ∧
      Seg s'.link (some first) (before ++ u :: req :: after) none ∧
      s'.outstanding = insert req s.outstanding ∧ s'.waiting = s.waiting ∧
      ∀ r, s'.request r = { s.request r with next := (s'.request r).next } := by
  obtain ⟨heads, same⟩ := queued_eq s req
  -- the queue reads as before in the queue where the new request is filled in
  have opened := queued_seg seg fresh
  let tied := (s.queued req).setRequest req { (s.queued req).request req with next := (s.queued req).link u }
  have result : s.addRequest m req = some (tied.setRequest u { tied.request u with next := some req }) := by
    have here : ((s.queued req).blkDev m).currentRequest = some first := by
      rw [same]
      exact headed
    rw [addRequest_headed here, stops]
    rfl
  refine ⟨_, result, ?_, ?_, ?_, ?_, ?_⟩
  · simp only [tied, same, setRequest_blkDev]
  · have inserted := opened.insertAfter opened.nodup fresh
    simp only [tied, setRequest_link] at inserted ⊢
    exact inserted
  · simp only [tied, same, setRequest_outstanding]
  · simp only [tied, same, setRequest_waiting]
  · intro r
    -- two records change, and in both only the link
    have apart : u ≠ req := fun h => fresh (by simp [h])
    simp only [tied, same, setRequest]
    by_cases atU : r = u
    · simp [atU, apart]
    · by_cases atReq : r = req
      · simp [atReq, apart.symm]
      · simp [atU, atReq]

/-- `addRequest` returns, and the list behind the device then holds the old
requests and the new one; only links, `b_dirt` and the head of the list change. -/
theorem addRequest_spec {s : Queue} {m : Nat} {req : ReqSlot} {l : List ReqSlot}
    (seg : Seg s.link (s.blkDev m).currentRequest l none) (fresh : req ∉ l) :
    ∃ s' l', s.addRequest m req = some s' ∧
      Seg s'.link (s'.blkDev m).currentRequest l' none ∧ (∀ r, r ∈ l' ↔ r = req ∨ r ∈ l) ∧
      s'.outstanding = insert req s.outstanding ∧ s'.waiting = s.waiting ∧
      (∀ r, (s'.request r).dev = (s.request r).dev) ∧
      (∀ k, (s'.blkDev k).requestFn = (s.blkDev k).requestFn) := by
  obtain ⟨heads, cleared⟩ :=
    clearDirt_eq (s.setRequest req { s.request req with next := none }) req
  have dev_same : ∀ q : Request, q.dev = (s.request req).dev →
      ∀ r, (Function.update s.request req q r).dev = (s.request r).dev := by
    intro q same r
    by_cases here : r = req
    · rw [here, Function.update_self, same]
    · rw [Function.update_of_ne here]
  -- an empty queue takes the request as its head and starts the device
  cases headed : (s.blkDev m).currentRequest with
  | none =>
    rw [headed] at seg
    obtain rfl : l = [] := by
      cases l with
      | nil => rfl
      | cons x l => cases seg.1
    refine ⟨_, [req], by simp only [addRequest, cleared, setRequest_blkDev, headed]; rfl, ?_⟩
    refine ⟨by simp [link, setRequest], by simp, rfl, rfl, dev_same _ rfl, fun k => ?_⟩
    by_cases here : k = m <;> simp [here]
  | some first =>
    rw [headed] at seg
    obtain ⟨u, member, stops⟩ : ∃ u ∈ l, (s.queued req).scan req nrRequest first = some u :=
      scan_returns (queued_seg seg fresh) (length_le_nrRequest seg.nodup)
    -- the scan stops at a member, and the request goes behind it
    obtain ⟨before, after, rfl⟩ := List.append_of_mem member
    obtain ⟨s', result, devices, inserted, queued, waiting, same⟩ :=
      addRequest_behind headed seg fresh stops
    refine ⟨s', before ++ u :: req :: after, result, ?_, ?_, queued, waiting, ?_, ?_⟩
    · rw [devices, headed]
      exact inserted
    · intro r
      simp only [List.mem_append, List.mem_cons]
      tauto
    · intro r
      rw [same r]
    · intro k
      rw [devices]

/-! ### The invariant along one step -/

theorem Filling.setHead {s : Queue} (filling : Filling s) (b : Addr) (h : BufferHead) :
    Filling (s.setHead b h) :=
  ⟨filling.exact, filling.used, filling.driver, filling.waiting⟩

theorem Filling.setWaiting {s : Queue} {waiting : List (Nat × Rw × Addr)} (filling : Filling s)
    (disk : ∀ w ∈ waiting, w.1 = majorNr) : Filling { s with waiting } :=
  ⟨filling.exact, filling.used, filling.driver, disk⟩

/-- A free slot is filled and queued. -/
theorem Filling.addRequest {s : Queue} {req : ReqSlot} {q : Request} (filling : Filling s)
    (free : (s.request req).dev < 0) (used : 0 ≤ q.dev) :
    ∃ s', (s.setRequest req q).addRequest majorNr req = some s' ∧ Filling s' := by
  obtain ⟨l, seg, _, members⟩ := filling.exact
  have fresh : req ∉ l := by
    intro member
    have := (filling.used req).mp ((members req).mp member)
    omega
  have filled : Seg (s.setRequest req q).link
      ((s.setRequest req q).blkDev majorNr).currentRequest l none := by
    rw [setRequest_link, setRequest_blkDev]
    exact seg.update fresh
  obtain ⟨s', l', result, seg', members', queued, waiting, devs, drivers⟩ :=
    addRequest_spec filled fresh
  refine ⟨s', result, ⟨l', seg', seg'.nodup, fun r => ?_⟩, fun r => ?_, fun m set => ?_, ?_⟩
  · rw [members', queued, Finset.mem_insert, members]
    rfl
  · rw [queued, Finset.mem_insert, devs, setRequest_request, setRequest_outstanding]
    by_cases here : r = req
    · subst here
      simp [used]
    · rw [Function.update_of_ne here, filling.used]
      simp [here]
  · rw [drivers] at set
    exact filling.driver m set
  · rw [waiting]
    exact filling.waiting

/-- `makeRequest` from `repeat` on returns: it queues a request, gives up, or goes to sleep. -/
theorem Filling.makeRequestRepeat {s : Queue} (filling : Filling s) (rw : Rw) (b : Addr) :
    ∃ s', s.makeRequestRepeat majorNr rw b = some s' ∧ Filling s' := by
  unfold Queue.makeRequestRepeat
  split
  · split
    · exact ⟨_, rfl, filling.setHead b _⟩
    · refine ⟨_, rfl, filling.setWaiting ?_⟩
      simpa using filling.waiting
  next req found =>
    have free := List.find?_some found
    simp only [decide_eq_true_eq] at free
    exact filling.addRequest free (Int.natCast_nonneg _)

theorem Filling.llRwBlock {s : Queue} (filling : Filling s) (rw : Rw) (b : Addr) :
    ∃ s', s.llRwBlock rw b = some s' ∧ Filling s' := by
  unfold Queue.llRwBlock
  dsimp only
  split
  · exact ⟨s, rfl, filling⟩
  next driven =>
    simp only [not_or, not_not] at driven
    rw [filling.driver _ driven.2]
    unfold makeRequest
    dsimp only
    have locked := filling.setHead b { s.heads b with lock := true }
    split
    · exact ⟨_, rfl, locked.setHead b _⟩
    · exact locked.makeRequestRepeat rw b

theorem Filling.step {s s' : Queue} {a : Action} (filling : Filling s) (taken : Step s a s')
    (guarded : NotEnding s a) : Filling s' := by
  cases taken with
  | initHarddisk =>
    obtain ⟨l, seg, single, members⟩ := filling.exact
    -- only the table of the drivers changes
    refine ⟨⟨l, ?_, single, members⟩, filling.used, fun m set => ?_, filling.waiting⟩
    · change Seg s.link _ l none
      simpa [Queue.initHarddisk] using seg
    · by_contra other
      simp only [Queue.initHarddisk, Function.update_of_ne other] at set
      exact other (filling.driver m set)
  | @llRwBlock _ rw b _ done =>
    obtain ⟨s'', result, after⟩ := filling.llRwBlock rw b
    obtain rfl : s'' = s' := Option.some.inj (result.symm.trans done)
    exact after
  | @retry _ m rw b before after asleep done =>
    have disk : m = majorNr := filling.waiting (m, rw, b) (by simp [asleep])
    have others : ∀ w ∈ before ++ after, w.1 = majorNr := by
      intro w member
      refine filling.waiting w ?_
      rw [asleep]
      simp only [List.mem_append, List.mem_cons] at member ⊢
      tauto
    subst disk
    obtain ⟨s'', result, after⟩ := (filling.setWaiting others).makeRequestRepeat rw b
    obtain rfl : s'' = s' := Option.some.inj (result.symm.trans done)
    exact after
  | endRequest => exact absurd guarded id

theorem filling_initBlkDev {s : Queue} (awake : s.waiting = []) (fresh : s.outstanding = ∅) :
    Filling s.initBlkDev := by
  refine ⟨⟨[], rfl, List.nodup_nil, ?_⟩, ?_, ?_, ?_⟩
  · simp [initBlkDev, fresh]
  · simp [initBlkDev, fresh]
  · simp [initBlkDev]
  · simp [initBlkDev, awake]

@[simp] theorem endRequest_currentRequest (s : Queue) (curr : ReqSlot) (uptodate : Bool) :
    (s.endRequest curr uptodate).blkDev = s.blkDev := by
  obtain ⟨heads, finished⟩ := finishBuffer_eq s curr uptodate
  simp [endRequest, finished]

@[simp] theorem endRequest_outstanding (s : Queue) (curr : ReqSlot) (uptodate : Bool) :
    (s.endRequest curr uptodate).outstanding = s.outstanding.erase curr := by
  obtain ⟨heads, finished⟩ := finishBuffer_eq s curr uptodate
  simp [endRequest, finished]

/-- A completed request stays the head of the list. -/
theorem endRequest_not_exact {s : Queue} {curr : ReqSlot} {uptodate : Bool}
    (head : (s.blkDev majorNr).currentRequest = some curr) :
    ¬ QueueExact (s.endRequest curr uptodate) := by
  rintro ⟨l, seg, _, members⟩
  rw [endRequest_currentRequest, head] at seg
  cases l with
  | nil => cases seg
  | cons x l =>
    obtain rfl : curr = x := Option.some.inj seg.1
    have := (members curr).mp List.mem_cons_self
    simp at this

/-! ### Whole runs -/

/-- The list is exactly the outstanding requests, and every completion advances
it, all along a run if and only if the run completes no request. -/
theorem queueExact_iff {hist : List (Queue × Action)} {s : Queue}
    (run : Transition.Run system hist s) :
    ((∀ x ∈ hist, QueueExact x.1 ∧ SuccessorNext x.1 x.2) ∧ QueueExact s) ↔
      ∀ x ∈ hist, NotEnding x.1 x.2 := by
  have exact_iff : ((∀ x ∈ hist, QueueExact x.1) ∧ QueueExact s) ↔
      ∀ x ∈ hist, NotEnding x.1 x.2 := by
    refine run.guard_iff (I := Filling) ?_ ?_ (fun s filling => filling.exact) ?_
    · rintro s ⟨s₀, awake, fresh, rfl⟩
      exact filling_initBlkDev awake fresh
    · intro s a s' filling taken guarded
      exact filling.step taken guarded
    · intro s a s' _ taken ending
      cases taken with
      | endRequest head => exact endRequest_not_exact head
      | initHarddisk => exact absurd trivial ending
      | llRwBlock => exact absurd trivial ending
      | retry => exact absurd trivial ending
  -- a run without an ended request has nothing to say about successors
  constructor
  · rintro ⟨before, last⟩
    exact exact_iff.mp ⟨fun x member => (before x member).1, last⟩
  · intro guarded
    obtain ⟨before, last⟩ := exact_iff.mpr guarded
    refine ⟨fun x member => ⟨before x member, ?_⟩, last⟩
    rintro uptodate curr s' ending
    have := guarded x member
    rw [ending] at this
    exact this.elim

/-! ### A completed request stays queued -/

/-- The table right after boot, where the buffer head at `b` is that of block `b` of device `0x300`. -/
def booted : Queue := initBlkDev
  { heads := fun b => ⟨0, BitVec.ofNat 32 b, 0x300, false, false, 1, false, none, none, none, none⟩
    request := fun _ => ⟨0, 0, 0, 0, 0, 0, none, none⟩
    blkDev := fun _ => ⟨false, none⟩
    waiting := []
    outstanding := ∅ }

/-- Block 5 and then block 2 are read: the later request goes behind the earlier one. -/
theorem reading : ∃ hist s, Transition.Run system hist s ∧
    hist.map Prod.snd = [.llRwBlock .read 2, .llRwBlock .read 5, .initHarddisk] ∧
    (s.blkDev majorNr).currentRequest = some 31 ∧ s.link 31 = some 30 ∧ s.link 30 = none ∧
    s.outstanding = {31, 30} := by
  have start : system.init booted := ⟨_, rfl, rfl, rfl⟩
  have first : ∃ s, booted.initHarddisk.llRwBlock .read 5 = some s ∧ (s.heads 2).lock = false ∧
      ∃ s', s.llRwBlock .read 2 = some s' ∧ (s'.blkDev majorNr).currentRequest = some 31 ∧
        s'.link 31 = some 30 ∧ s'.link 30 = none ∧ s'.outstanding = {31, 30} :=
    ⟨_, rfl, rfl, _, rfl, rfl, rfl, rfl, by decide⟩
  obtain ⟨s, one, unlocked, s', two, shape⟩ := first
  exact ⟨_, s', .step (.step (.step (.init start) .initHarddisk) (.llRwBlock rfl one))
    (.llRwBlock unlocked two), rfl, shape⟩

theorem queueExact_iff_reading : ∃ hist s, Transition.Run system hist s ∧
    hist.map Prod.snd = [Action.llRwBlock .read 2, .llRwBlock .read 5, .initHarddisk] ∧
    s.outstanding = {31, 30} ∧
    (((∀ x ∈ hist, QueueExact x.1 ∧ SuccessorNext x.1 x.2) ∧ QueueExact s) ↔
      ∀ x ∈ hist, NotEnding x.1 x.2) := by
  obtain ⟨hist, s, run, actions, _, _, _, queued⟩ := reading
  exact ⟨hist, s, run, actions, queued, queueExact_iff run⟩

/-- Two reads and a completion: slot 31 is free and still the head of the list. -/
theorem ended_still_queued : ¬ ∀ hist s, Transition.Run system hist s → QueueExact s := by
  intro claimed
  obtain ⟨_, s, run, _, head, _⟩ := reading
  have ended : Step s (.endRequest true) (s.endRequest 31 true) := .endRequest head
  exact endRequest_not_exact head (claimed _ _ (.step run ended))

end Queue

end OperatorSystem.Blk
