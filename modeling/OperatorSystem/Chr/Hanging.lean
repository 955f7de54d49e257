import OperatorSystem.Chr.Tty
import OperatorSystem.Library.Transition

/-!
# Writes that do not return

`rsWrite` is empty, so nothing ever leaves the write queue of a serial line. A
write to one that asks for more than the free places fills the queue and then
finds it full for ever. And `rwTtyx` hands every minor number on, also those
behind `TTY_TABLE`. The main result `settled_iff` says for which calls of a run
neither happens.
-/

namespace OperatorSystem.Chr

open OperatorSystem.Mm

/-! ### A terminal whose text is not translated -/

section Plain

variable {m : Memory} {w w' : Writing} {fuel channel : Nat} {c c' : Console}

theorem Writing.next_termios (done : w.next m = some w') : w'.tty.termios = w.tty.termios := by
  obtain ⟨ch, read, rest⟩ := Option.bind_eq_some_iff.mp done
  simp only [Option.pure_def] at rest
  split at rest
  · split at rest <;> (obtain rfl := Option.some.inj rest; rfl)
  · obtain rfl := Option.some.inj rest
    rfl

theorem Writing.fill_termios (done : w.fill fuel m = some w') : w'.tty.termios = w.tty.termios := by
  induction fuel generalizing w with
  | zero => cases done
  | succ fuel ih =>
    rw [Writing.fill] at done
    split at done
    next =>
      obtain ⟨w₁, step, rest⟩ := Option.bind_eq_some_iff.mp done
      exact (ih rest).trans (next_termios step)
    next =>
      obtain rfl := Option.some.inj done
      rfl

theorem flush_termios (channel : Nat) (tty : Tty) (c : Console) : (flush channel tty c).1.termios = tty.termios := by
  rw [flush]
  split
  · exact (free_conWrite tty c).1
  · rfl

/-- No write changes the flags of a terminal. -/
theorem ttyWriteLoop_termios (done : ttyWriteLoop channel fuel m c w = some (w', c')) :
    w'.tty.termios = w.tty.termios := by
  induction fuel generalizing w c with
  | zero => cases done
  | succ fuel ih =>
    rw [ttyWriteLoop] at done
    split at done
    next =>
      obtain ⟨w₁, filled, rest⟩ := Option.bind_eq_some_iff.mp done
      exact (ih rest).trans ((flush_termios ..).trans (w.fill_termios filled))
    next =>
      obtain ⟨rfl, rfl⟩ := Prod.mk.inj (Option.some.inj done)
      rfl

/-- Without `OPOST` a round of the inner loop writes one character into one place. -/
theorem Writing.next_plain (plain : w.tty.termios.cOflag &&& opost = 0) (room : ¬ w.tty.writeQ.full)
    (done : w.next m = some w') : w'.nr = w.nr - 1 ∧ w'.tty.writeQ.free + 1 = w.tty.writeQ.free := by
  obtain ⟨ch, read, rest⟩ := Option.bind_eq_some_iff.mp done
  simp only [plain, ne_eq, not_true_eq_false, if_false, Option.pure_def] at rest
  obtain rfl := Option.some.inj rest
  exact ⟨rfl, w.tty.writeQ.free_put ch room⟩

/-- The inner loop writes as many characters as it fills places, until the text
or the room is at its end. -/
theorem Writing.fill_plain (plain : w.tty.termios.cOflag &&& opost = 0) (done : w.fill fuel m = some w') :
    w'.nr + w.tty.writeQ.free = w.nr + w'.tty.writeQ.free ∧ (w'.nr = 0 ∨ w'.tty.writeQ.free = 0) := by
  induction fuel generalizing w with
  | zero => cases done
  | succ fuel ih =>
    rw [Writing.fill] at done
    split at done
    next again =>
      obtain ⟨w₁, step, rest⟩ := Option.bind_eq_some_iff.mp done
      -- without output processing each character takes one place
      obtain ⟨fewer, less⟩ := next_plain plain again.2 step
      obtain ⟨together, ended⟩ := ih (by rw [next_termios step]; exact plain) rest
      have more := again.1
      exact ⟨by omega, ended⟩
    next stop =>
      obtain rfl := Option.some.inj done
      refine ⟨rfl, ?_⟩
      rw [← w.tty.writeQ.full_iff]
      by_cases full : w.tty.writeQ.full
      · exact .inr full
      · have none : ¬ 0 < w.nr := fun more => stop ⟨more, full⟩
        exact .inl (by omega)

/-- A serial line that is given more characters than it has free places never
comes to the end of the text: what is left always exceeds the room. -/
theorem ttyWriteLoop_hangs (serial : channel ≠ 0) (plain : w.tty.termios.cOflag &&& opost = 0)
    (many : w.tty.writeQ.free < w.nr) : ttyWriteLoop channel fuel m c w = none := by
  induction fuel generalizing w c with
  | zero => rfl
  | succ fuel ih =>
    rw [ttyWriteLoop, if_pos (by omega)]
    cases filled : w.fill ttyBufSize m with
    | none => rfl
    | some w₁ =>
      obtain ⟨together, _⟩ := w.fill_plain plain filled
      have kept : flush channel w₁.tty c = (w₁.tty, c) := by rw [flush, if_neg serial]
      simp only [Option.bind_eq_bind, Option.bind_some, kept]
      apply ih
      · rw [w.fill_termios filled]
        exact plain
      · change w₁.tty.writeQ.free < w₁.nr
        omega

/-- With room for the whole text the first round writes it. -/
theorem ttyWriteLoop_fits {buf count : Nat} (serial : channel ≠ 0) (plain : w.tty.termios.cOflag &&& opost = 0)
    (progress : Progress m buf count w)
    (readable : ∀ i < count, ∃ ch, m.readByte (BitVec.ofNat 32 (buf + i)) = some ch)
    (few : w.nr ≤ w.tty.writeQ.free) : ∃ w', ttyWriteLoop channel (fuel + 2) m c w = some (w', c) := by
  rw [ttyWriteLoop]
  split
  next more =>
    obtain ⟨w₁, filled, _⟩ := progress.fill readable w.tty.writeQ.free_lt
    obtain ⟨together, ended⟩ := w.fill_plain plain filled
    have kept : flush channel w₁.tty c = (w₁.tty, c) := by rw [flush, if_neg serial]
    have done : ¬ 0 < w₁.nr := by omega
    rw [filled]
    simp only [Option.bind_eq_bind, Option.bind_some, kept]
    exact ⟨w₁, by rw [ttyWriteLoop, if_neg done]⟩
  next => exact ⟨w, rfl⟩

end Plain

/-! ### Runs of calls -/

/-- A call of `rwChar` with `rw = WRITE`, and the memory at that time. -/
structure Call where
  mem : Memory
  dev : BitVec 32
  buf : Nat
  count : BitVec 32

namespace Call

variable {t : Terminals} {call : Call}

/-- `MAJOR` -/
def major (call : Call) : Nat := (call.dev >>> 8).toNat

/-- `MINOR`, the channel that `rwTtyx` passes on. -/
def minor (call : Call) : Nat := (call.dev &&& 0xff).toNat

/-- The text of the call, as `int nr` counts it. -/
def nr (call : Call) : Nat := call.count.toInt.toNat

/-- The text can be read. -/
def Readable (call : Call) : Prop :=
  ∀ i < call.nr, ∃ ch, call.mem.readByte (BitVec.ofNat 32 (call.buf + i)) = some ch

def run (call : Call) (t : Terminals) : Option WriteResult :=
  rwChar call.mem t call.dev (BitVec.ofNat 32 call.buf) call.count

/-- `ttyWrite` comes to its end, in however many rounds. -/
def Returns (call : Call) (t : Terminals) : Prop :=
  ∃ fuel, (ttyWriteLoop call.minor fuel call.mem t.console
    ⟨t.ttyTable call.minor, BitVec.ofNat 32 call.buf, call.nr, false, []⟩).isSome

/-- The call is rejected, or it is for one of the three terminals and returns. -/
def Settles (call : Call) (t : Terminals) : Prop :=
  call.run t = some ⟨t, -1, []⟩ ∧ call.major ≠ 4 ∨ call.major = 4 ∧ call.minor < 3 ∧ call.Returns t

/-- A call for a terminal is for the console, or for a serial line with room for the text. -/
def Fits (call : Call) (t : Terminals) : Prop :=
  call.major = 4 → call.minor < 3 ∧ (call.minor = 0 ∨ call.count.toInt ≤ (t.ttyTable call.minor).writeQ.free)

theorem rejected (other : call.major ≠ 4) : call.run t = some ⟨t, -1, []⟩ := by
  rw [run, rwChar]
  split
  · rfl
  · have none : ¬ crwTable (call.dev >>> 8).toNat := by
      simp only [crwTable, decide_eq_true_eq]
      exact other
    rw [if_pos none]

theorem run_ttyWrite (terminal : call.major = 4) :
    call.run t = ttyWrite call.mem t call.minor (BitVec.ofNat 32 call.buf) call.count := by
  have found : (call.dev >>> 8).toNat = 4 := terminal
  have entry : ¬ ¬ crwTable (call.dev >>> 8).toNat := by simp [crwTable, found]
  rw [run, rwChar, if_neg (by omega), if_neg entry]
  rfl

end Call

/-- The calls follow each other. What comes after a call that does not return, or
that uses the memory behind `TTY_TABLE`, is not modelled: any state may follow. -/
def Terminals.calls : Transition.System Terminals Call where
  init t := t.ttyTable = initialTerminals.ttyTable
  step t call t' := call.Readable ∧ (call.Settles t → ∃ r, call.run t = some r ∧ t' = r.terminals)

/-- The serial lines do not translate. -/
def Terminals.Plain (t : Terminals) : Prop :=
  ∀ channel ≠ 0, (t.ttyTable channel).termios.cOflag &&& opost = 0

namespace Call

variable {t t' : Terminals} {call : Call}

theorem start (call : Call) (t : Terminals) : Progress call.mem call.buf call.nr
    ⟨t.ttyTable call.minor, BitVec.ofNat 32 call.buf, call.nr, false, []⟩ := by
  constructor
  · exact Nat.le_refl call.nr
  · simp
  · intro a ch none
    cases none
  · intro i impossible
    simp at impossible

/-- A readable call that fits comes to its end within the rounds that `ttyWrite` is given. -/
theorem Fits.ends (fits : call.Fits t) (plain : t.Plain) (readable : call.Readable) (terminal : call.major = 4) :
    ∃ ended, ttyWriteLoop call.minor (2 * call.nr + 2) call.mem t.console
      ⟨t.ttyTable call.minor, BitVec.ofNat 32 call.buf, call.nr, false, []⟩ = some ended := by
  -- the console is emptied in each round, a serial line has to hold the whole text
  by_cases console : call.minor = 0
  · have whole : (BitVec.ofNat 32 call.nr).toInt.toNat = call.nr := by
      have small : call.nr < 2 ^ 31 := by
        have bound := BitVec.toInt_lt (x := call.count)
        simp only [nr]
        omega
      exact toNat_toInt_ofNat small
    obtain ⟨_, _, written, _⟩ := ttyWrite_zero call.mem t call.buf call.nr readable whole
    obtain ⟨ended, loop, _⟩ := Option.bind_eq_some_iff.mp written
    rw [whole] at loop
    rw [console]
    exact ⟨ended, loop⟩
  · have few : call.nr ≤ (t.ttyTable call.minor).writeQ.free := by
      have room := (fits terminal).2.resolve_left console
      simp only [nr]
      omega
    obtain ⟨w, done⟩ : ∃ w, ttyWriteLoop call.minor (2 * call.nr + 2) call.mem t.console _ = some (w, t.console) :=
      ttyWriteLoop_fits console (plain _ console) (call.start t) readable few
    exact ⟨_, done⟩

/-- While the serial lines do not translate, exactly the calls that fit settle. -/
theorem settles_iff (plain : t.Plain) (readable : call.Readable) : call.Settles t ↔ call.Fits t := by
  constructor
  · rintro (⟨_, other⟩ | ⟨_, inside, fuel, returns⟩) terminal
    · exact absurd terminal other
    · refine ⟨inside, ?_⟩
      by_contra neither
      obtain ⟨serial, many⟩ := not_or.mp neither
      have exceeds : (t.ttyTable call.minor).writeQ.free < call.nr := by
        simp only [nr]
        omega
      rw [ttyWriteLoop_hangs serial (plain _ serial) exceeds] at returns
      cases returns
  · intro fits
    by_cases terminal : call.major = 4
    · obtain ⟨ended, loop⟩ := fits.ends plain readable terminal
      exact .inr ⟨terminal, (fits terminal).1, _, by rw [loop]; rfl⟩
    · exact .inl ⟨rejected terminal, terminal⟩

/-- A call that settles has a result. -/
theorem run_of_settles (plain : t.Plain) (readable : call.Readable) (settles : call.Settles t) :
    ∃ r, call.run t = some r := by
  rcases id settles with ⟨done, _⟩ | ⟨terminal, _⟩
  · exact ⟨_, done⟩
  · obtain ⟨⟨w, c⟩, loop⟩ := ((settles_iff plain readable).mp settles).ends plain readable terminal
    rw [nr] at loop
    have written : ttyWrite call.mem t call.minor (BitVec.ofNat 32 call.buf) call.count =
        some ⟨⟨Function.update t.ttyTable call.minor w.tty, c⟩, w.b - BitVec.ofNat 32 call.buf, w.loads⟩ := by
      simp only [ttyWrite, loop, Option.bind_eq_bind, Option.bind_some]
      rfl
    exact ⟨_, (run_ttyWrite terminal).trans written⟩

theorem plain_run (plain : t.Plain) {r : WriteResult} (done : call.run t = some r) : r.terminals.Plain := by
  by_cases terminal : call.major = 4
  · rw [run_ttyWrite terminal] at done
    obtain ⟨⟨w, c⟩, loop, result⟩ := Option.bind_eq_some_iff.mp done
    obtain rfl := Option.some.inj result
    have kept : w.tty.termios = (t.ttyTable call.minor).termios := ttyWriteLoop_termios loop
    intro channel serial
    change (Function.update t.ttyTable call.minor w.tty channel).termios.cOflag &&& opost = 0
    by_cases here : channel = call.minor
    · rw [here, Function.update_self, kept]
      exact plain _ (here ▸ serial)
    · rw [Function.update_of_ne here]
      exact plain channel serial
  · rw [rejected terminal] at done
    obtain rfl := Option.some.inj done
    exact plain

end Call

namespace Terminals

variable {t t' : Terminals} {call : Call} {hist : List (Terminals × Call)}

theorem plain_init (start : calls.init t) : t.Plain := by
  intro channel serial
  have table : t.ttyTable = initialTerminals.ttyTable := start
  rw [table]
  change (if channel = 0 then opost ||| onlcr else 0) &&& opost = 0
  rw [if_neg serial]
  decide

theorem plain_step (plain : t.Plain) (taken : calls.step t call t') (fits : call.Fits t) : t'.Plain := by
  obtain ⟨readable, follows⟩ := taken
  obtain ⟨r, done, rfl⟩ := follows ((Call.settles_iff plain readable).mpr fits)
  exact Call.plain_run plain done

/-- In every run from the initial terminals, all calls settle if and only if all
calls for a terminal name one of the three, and those for a serial line ask for
no more than the places that the calls before have left free. -/
theorem settled_iff (run : Transition.Run calls hist t) :
    (∀ x ∈ hist, x.2.Settles x.1) ↔ ∀ x ∈ hist, x.2.Fits x.1 := by
  apply run.steps_iff (I := Plain)
  · exact fun t start => plain_init start
  · exact fun t call t' plain taken fits => plain_step plain taken fits
  · exact fun t call t' plain taken => Call.settles_iff plain taken.1

end Terminals

/-! ### A long write to a serial line -/

/-- A write of `count` zeros to the first serial line, in the memory of the first fork. -/
theorem serial_call (count : BitVec 32) (few : count.toInt ≤ 4096) :
    ∃ call : Call, call.dev = 0x401 ∧ call.count = count ∧ call.Readable := by
  obtain ⟨s, _, _, start, _⟩ := Spaces.forked_boot
  refine ⟨⟨s.mem, 0x401, 0x50000, count⟩, rfl, rfl, fun i inside => ?_⟩
  have below : i < count.toInt.toNat := inside
  exact ⟨_, readByte_flat (Spaces.sound_init start).paged (by simp only [segmentSize]; omega)⟩

/-- A write of 1024 characters to a serial line never returns, though it is the first. -/
theorem serial_hangs : ¬ ∀ hist t, Transition.Run Terminals.calls hist t → ∀ x ∈ hist, x.2.Settles x.1 := by
  intro always
  obtain ⟨call, device, count, readable⟩ := serial_call 1024 (by decide)
  have unfit : ¬ call.Fits initialTerminals := by
    intro fits
    have terminal : call.major = 4 := by rw [Call.major, device]; rfl
    have minor : call.minor = 1 := by rw [Call.minor, device]; rfl
    obtain ⟨_, room⟩ := fits terminal
    rw [minor, count] at room
    rcases room with console | few
    · exact absurd console (by decide)
    · exact absurd few (by decide)
  have unsettled : ¬ call.Settles initialTerminals := by
    rw [Call.settles_iff (Terminals.plain_init rfl) readable]
    exact unfit
  have run : Transition.Run Terminals.calls [(initialTerminals, call)] initialTerminals :=
    .step (.init rfl) ⟨readable, fun settles => absurd settles unsettled⟩
  have settled := always [(initialTerminals, call)] initialTerminals run
  exact unsettled (settled (initialTerminals, call) List.mem_cons_self)

/-- A write of 5 characters returns. -/
theorem settled_iff_five : ∃ hist t, Transition.Run Terminals.calls hist t ∧ hist.length = 1 ∧
    ((∀ x ∈ hist, x.2.Settles x.1) ↔ ∀ x ∈ hist, x.2.Fits x.1) := by
  obtain ⟨call, device, count, readable⟩ := serial_call 5 (by decide)
  have plain : initialTerminals.Plain := Terminals.plain_init rfl
  have fits : call.Fits initialTerminals := by
    intro _
    have minor : call.minor = 1 := by rw [Call.minor, device]; rfl
    rw [minor, count]
    exact ⟨by decide, .inr (by decide)⟩
  obtain ⟨r, done⟩ := Call.run_of_settles plain readable ((Call.settles_iff plain readable).mpr fits)
  have run : Transition.Run Terminals.calls [(initialTerminals, call)] r.terminals :=
    .step (.init rfl) ⟨readable, fun _ => ⟨r, done, rfl⟩⟩
  exact ⟨[(initialTerminals, call)], r.terminals, run, List.length_singleton, Terminals.settled_iff run⟩

end OperatorSystem.Chr
