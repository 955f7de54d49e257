import OperatorSystem.Chr.Keyboard
import OperatorSystem.Chr.Queue

/-!
# The keys in the read queue

`keyboardHandler` stores every key it decodes and never asks `fullQueue`. The
1024th key without a reader brings the head onto the tail, and the queue of 1023
unread keys looks empty. The main result `unread_iff` says that until a key
comes to a full queue, the queue holds the keys that were not yet removed.
-/

namespace OperatorSystem.Chr

namespace Keyboard

/-- What happens to the read queue: a scan code is handled, or a reader takes some keys. -/
inductive Event
  | scan (code : BitVec 8)
  | remove (n : Nat)

/-- The handler stores a key for the scan code. -/
def Types (scanCode : BitVec 8) : Prop := ¬ Prefix scanCode ∧ make scanCode = true

instance (scanCode : BitVec 8) : Decidable (Types scanCode) := inferInstanceAs (Decidable (_ ∧ _))

/-- The key that is stored. -/
def stored (s : Keyboard) (scanCode : BitVec 8) : BitVec 8 :=
  BitVec.ofInt 8 (typed s.numLock (s.key scanCode))

/-- A reader advances the tail at most up to the head. -/
def typing : Transition.System Keyboard Event where
  init s := s = initial ⟨0, 0, fun _ => 0, ttyBufSize_pos, ttyBufSize_pos⟩
  step s event s' := match event with
    | .scan scanCode => s' = s.keyboardHandler scanCode
    | .remove n => n ≤ s.readQ.waiting ∧ s' = { s with readQ := s.readQ.advance n }

/-- The keys enqueued and not yet removed; a full queue takes no more. -/
def unread : List (Keyboard × Event) → List (BitVec 8)
  | [] => []
  | (s, .scan scanCode) :: hist =>
    if Types scanCode ∧ (unread hist).length + 1 < ttyBufSize then unread hist ++ [s.stored scanCode]
    else unread hist
  | (_, .remove n) :: hist => (unread hist).drop n

/-- The event does not bring a key to a full queue. -/
def Room : Keyboard × Event → Prop
  | (s, .scan scanCode) => Types scanCode → ¬ s.readQ.full
  | (_, .remove _) => True

section Queue

variable {s s' : Keyboard} {event : Event} {hist : List (Keyboard × Event)} {b : BitVec 8}

/-- Without a key to store the queue stays. -/
theorem readQ_silent (silent : ¬ Types b) : (s.keyboardHandler b).readQ = s.readQ := by
  unfold keyboardHandler
  split
  · rfl
  split
  · rfl
  next second first =>
    have released : ¬ make b = true := fun made => silent ⟨not_or.mpr ⟨first, second⟩, made⟩
    simp only [if_neg released]
    exact (queue_setFlags _ _ _).1

theorem readQ_types (types : Types b) : (s.keyboardHandler b).readQ = s.readQ.put (s.stored b) :=
  readQ_handler types.1 types.2

theorem bytes_initial {s : Keyboard} (start : typing.init s) : s.readQ.bytes = unread [] := by
  obtain rfl := start
  rfl

theorem full_iff_length (s : Keyboard) : s.readQ.full ↔ ¬ s.readQ.bytes.length + 1 < ttyBufSize := by
  have bound := s.readQ.waiting_lt
  rw [TtyQueue.length_bytes, TtyQueue.full_iff_waiting]
  simp only [ttyBufSize] at bound ⊢
  omega

/-- One event: the queue goes on holding the unread keys exactly if there was room. -/
theorem unread_step (holds : s.readQ.bytes = unread hist) (taken : typing.step s event s') :
    s'.readQ.bytes = unread ((s, event) :: hist) ↔ Room (s, event) := by
  cases event with
  | scan b =>
    obtain rfl : s' = s.keyboardHandler b := taken
    simp only [unread, Room, ← holds]
    by_cases types : Types b
    · rw [readQ_types types]
      by_cases full : s.readQ.full
      · -- the head comes onto the tail, and 1023 keys are gone
        have long := (full_iff_length s).mp full
        rw [TtyQueue.bytes_put_full _ full, if_neg fun both => long both.2]
        refine iff_of_false (fun none => ?_) (fun room => room types full)
        rw [← none] at long
        exact long (by decide)
      · have short := Classical.not_not.mp (mt (full_iff_length s).mpr full)
        rw [TtyQueue.bytes_put _ full, if_pos ⟨types, short⟩]
        exact iff_of_true rfl fun _ => full
    · rw [readQ_silent types, if_neg fun both => types both.1]
      exact iff_of_true rfl fun now => absurd now types
  | remove n =>
    obtain ⟨some, rfl⟩ := taken
    refine iff_of_true ?_ trivial
    rw [unread, ← holds]
    exact TtyQueue.bytes_advance some

end Queue

/-- In every run of scan codes and removals, the queue always holds the unread
keys in order if and only if no key comes to a full queue. -/
theorem unread_iff {hist : List (Keyboard × Event)} {s : Keyboard} (run : Transition.Run typing hist s) :
    Transition.Along (fun hist s => s.readQ.bytes = unread hist) hist s ↔ ∀ x ∈ hist, Room x := by
  have exact := run.along_iff (P := fun hist s => s.readQ.bytes = unread hist) (Q := fun _ => True) (G := Room)
    (fun s start => bytes_initial start)
    (fun hist s event s' holds taken => by rw [and_iff_left trivial]; exact unread_step holds taken)
  rw [← exact]
  exact (and_iff_left fun _ _ => trivial).symm

/-! ### A thousand keys without a reader -/

/-- The key `a` has been pressed `n` times. -/
theorem pressed (n : Nat) (few : n < ttyBufSize) :
    ∃ hist s, Transition.Run typing hist s ∧ s.readQ.waiting = n := by
  induction n with
  | zero => exact ⟨[], _, .init rfl, rfl⟩
  | succ n ih =>
    obtain ⟨hist, s, run, waiting⟩ := ih (by omega)
    have room : ¬ s.readQ.full := by
      rw [TtyQueue.full_iff_waiting]
      simp only [ttyBufSize] at few
      omega
    have taken : typing.step s (.scan 0x1E) (s.keyboardHandler 0x1E) := rfl
    refine ⟨_, _, .step run taken, ?_⟩
    rw [readQ_types (by decide), TtyQueue.waiting_put _ room, waiting]

/-- The next one makes the queue look empty. -/
theorem keys_lost : ¬ ∀ hist s, Transition.Run typing hist s →
    Transition.Along (fun hist s => s.readQ.bytes = unread hist) hist s := by
  intro always
  obtain ⟨hist, s, run, waiting⟩ := pressed 1023 (by decide)
  have taken : typing.step s (.scan 0x1E) (s.keyboardHandler 0x1E) := rfl
  have after := (always _ _ (.step run taken)).last
  have room := (unread_step (always _ _ run).last taken).mp after
  exact room (by decide) (TtyQueue.full_iff_waiting.mpr waiting)

/-- One key is pressed. -/
theorem unread_iff_one : ∃ hist s, Transition.Run typing hist s ∧ s.readQ.waiting = 1 ∧
    (Transition.Along (fun hist s => s.readQ.bytes = unread hist) hist s ↔ ∀ x ∈ hist, Room x) := by
  obtain ⟨hist, s, run, waiting⟩ := pressed 1 (by decide)
  exact ⟨hist, s, run, waiting, unread_iff run⟩

end Keyboard

end OperatorSystem.Chr
