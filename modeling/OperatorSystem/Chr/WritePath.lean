import OperatorSystem.Chr.Chunking
import OperatorSystem.Chr.Display
import OperatorSystem.Kernel.Print

/-!
# From a write to the display (`read_write.c`, `print.c`, `tty.c`, `console.c`)

Programs write with `sysWrite` and the kernel with `printk`. Both end in
`ttyWrite`, which translates the text into the ring of the terminal and has the
console print it in portions. The main result `display_output` leaves all of
that out: the display shows the paper on which the translated texts have been
typed.
-/

namespace OperatorSystem.Chr

open OperatorSystem.Mm (Memory)
open Transition (System Run)
open Console

/-! ### What the console has printed -/

/-- The paper on which everything has been typed that the console has printed. -/
def paper (screen : BitVec 32 → BitVec 16) (c : Console) : Paper (BitVec 16) :=
  (sheet screen).typeAll 80 blank (c.printed.reverse.map fun x => key x.1 x.2)

/-- The display keeps up with the paper as long as video memory has room. -/
def UpToDate (screen : BitVec 32 → BitVec 16) (c : Console) : Prop :=
  (paper screen c).row < 204 → c.Shows (paper screen c) ∧ c.setCursor = c

variable {screen : BitVec 32 → BitVec 16}

theorem upToDate_initConsole (screen : BitVec 32 → BitVec 16) : UpToDate screen (Console.boot screen).initConsole :=
  fun _ => ⟨shows_initConsole screen, rfl⟩

theorem paper_conWrite (tty : Tty) (c : Console) : paper screen (conWrite tty c).2 =
    (paper screen c).typeAll 80 blank (tty.writeQ.bytes.map (key tty.termios.verase)) := by
  rw [paper, (conWrite_bytes tty c).2, List.reverse_append, List.reverse_reverse, List.map_append, List.map_map,
    paper, Paper.typeAll, List.foldl_append]
  rfl

theorem UpToDate.conWrite {c : Console} (upToDate : UpToDate screen c) (tty : Tty) :
    UpToDate screen (conWrite tty c).2 := by
  intro fits
  rw [paper_conWrite] at fits ⊢
  have inside : (paper screen c).column ≤ 80 := (Paper.typeAll_bounds (Nat.zero_le 80) (by decide) _).2
  -- the paper only grows, so it has fitted before
  obtain ⟨shows, _⟩ := upToDate (Nat.lt_of_le_of_lt (Paper.typeAll_bounds inside (by decide) _).1 fits)
  rw [conWrite_eq]
  exact ⟨(shows.printAll tty.termios.verase tty.writeQ.bytes fits).setCursor, rfl⟩

theorem UpToDate.flush {c : Console} (upToDate : UpToDate screen c) (channel : Nat) (tty : Tty) :
    UpToDate screen (flush channel tty c).2 := by
  rw [Chr.flush]
  split
  · exact upToDate.conWrite tty
  · exact upToDate

theorem UpToDate.ttyWriteLoop {c c' : Console} (upToDate : UpToDate screen c) {channel fuel : Nat} {m : Memory}
    {w w' : Writing} (done : ttyWriteLoop channel fuel m c w = some (w', c')) : UpToDate screen c' := by
  induction fuel generalizing c w with
  | zero => cases done
  | succ fuel ih =>
    rw [Chr.ttyWriteLoop] at done
    split at done
    next =>
      obtain ⟨w₁, _, rest⟩ := Option.bind_eq_some_iff.mp done
      exact ih (upToDate.flush channel w₁.tty) rest
    next =>
      obtain ⟨_, rfl⟩ := Prod.mk.inj (Option.some.inj done)
      exact upToDate

/-! ### A call that returns has read its whole text -/

/-- The text from `b` on, `n` bytes of it. -/
def Readable (m : Memory) (b : BitVec 32) (n : Nat) : Prop :=
  ∀ i < n, ∃ c, m.readByte (b + BitVec.ofNat 32 i) = some c

theorem Readable.cons {m : Memory} {b : BitVec 32} {n : Nat} {c : BitVec 8} (first : m.readByte b = some c)
    (rest : Readable m (b + 1) (n - 1)) : Readable m b n := by
  intro i inside
  cases i with
  | zero => exact ⟨c, by rw [← first]; simp⟩
  | succ i =>
    obtain ⟨d, found⟩ := rest i (by omega)
    refine ⟨d, ?_⟩
    rw [BitVec.add_assoc, BitVec.add_comm 1] at found
    rw [BitVec.ofNat_add]
    exact found

/-- Where `b` and `nr` are behind a round of the inner loop, the text from there on says what the text was. -/
theorem readable_of_next {m : Memory} {w w' : Writing} (done : w.next m = some w')
    (rest : Readable m w'.b w'.nr) : Readable m w.b w.nr := by
  obtain ⟨c, first, stored⟩ := Option.bind_eq_some_iff.mp done
  have emitted (d : BitVec 8)
      (same : Writing.emit { w with loads := w.loads ++ [(w.b, c)] } d = w') : Readable m w.b w.nr := by
    subst same
    exact rest.cons first
  dsimp only at stored
  split at stored
  · split at stored
    · -- the carriage return leaves both where they were
      obtain rfl := Option.some.inj stored
      exact rest
    · exact emitted _ (Option.some.inj stored)
  · exact emitted _ (Option.some.inj stored)

theorem readable_of_fill {fuel : Nat} {m : Memory} {w w' : Writing} (done : w.fill fuel m = some w')
    (rest : Readable m w'.b w'.nr) : Readable m w.b w.nr := by
  induction fuel generalizing w with
  | zero => cases done
  | succ fuel ih =>
    rw [Writing.fill] at done
    split at done
    next =>
      obtain ⟨w₁, round, later⟩ := Option.bind_eq_some_iff.mp done
      exact readable_of_next round (ih later)
    next =>
      obtain rfl := Option.some.inj done
      exact rest

theorem readable_of_ttyWriteLoop {channel fuel : Nat} {m : Memory} {w w' : Writing} {c c' : Console}
    (done : ttyWriteLoop channel fuel m c w = some (w', c')) : Readable m w.b w.nr := by
  induction fuel generalizing c w with
  | zero => cases done
  | succ fuel ih =>
    rw [Chr.ttyWriteLoop] at done
    split at done
    next =>
      obtain ⟨w₁, filled, rest⟩ := Option.bind_eq_some_iff.mp done
      exact readable_of_fill filled (ih (w := { w₁ with tty := (flush channel w₁.tty c).1 }) rest)
    next stop =>
      intro i inside
      omega

def textAt (m : Memory) (b : BitVec 32) (n : Nat) : List (BitVec 8) :=
  (List.range n).map fun i => (m.readByte (b + BitVec.ofNat 32 i)).getD 0

theorem readsText_textAt {m : Memory} {b : BitVec 32} {n : Nat} (readable : Readable m b n) :
    ReadsText m b.toNat (textAt m b n) := by
  intro i inside
  simp only [textAt, List.length_map, List.length_range] at inside
  obtain ⟨c, found⟩ := readable i inside
  have address : BitVec.ofNat 32 (b.toNat + i) = b + BitVec.ofNat 32 i := by
    rw [BitVec.ofNat_add, BitVec.ofNat_toNat, BitVec.setWidth_eq]
  simp only [textAt, List.getElem_map, List.getElem_range, address, found, Option.getD_some]

/-! ### One call -/

/-- The console's terminal between two calls. -/
structure Settled (screen : BitVec 32 → BitVec 16) (t : Terminals) : Prop where
  termios : (t.ttyTable 0).termios = ⟨opost ||| onlcr, 0x7f⟩
  empty : (t.ttyTable 0).writeQ.bytes = []
  upToDate : UpToDate screen t.console

/-- The keys that a text presses on the console. -/
def output (text : List (BitVec 8)) : List (Paper.Key (BitVec 16)) :=
  (text.flatMap (translate (opost ||| onlcr))).map (key 0x7f)

variable {t : Terminals} {m : Memory} {r : WriteResult}

/-- A call for the console types its text, however it is cut into portions. -/
theorem Settled.ttyWrite (settled : Settled screen t) {buf nr : BitVec 32}
    (done : ttyWrite m t 0 buf nr = some r) : Settled screen r.terminals ∧
      paper screen r.terminals.console =
        (paper screen t.console).typeAll 80 blank (output (textAt m buf nr.toInt.toNat)) := by
  obtain ⟨⟨w, c⟩, loop, result⟩ := Option.bind_eq_some_iff.mp done
  obtain rfl := (Option.some.inj result).symm
  have reads := readsText_textAt (readable_of_ttyWriteLoop loop)
  have upToDate := settled.upToDate.ttyWriteLoop loop
  have termios := settled.termios
  generalize nr.toInt.toNat = n at *
  have length : (textAt m buf n).length = n := by
    rw [textAt, List.length_map, List.length_range]
  have start : Streamed buf.toNat (textAt m buf n) [] (opost ||| onlcr) 0x7f t.console.printed
      ⟨t.ttyTable 0, buf, n, false, []⟩ t.console := by
    refine ⟨termios, [], textAt m buf n, [], rfl, length, ?_, rfl, settled.empty, ?_⟩
    · simp
    · simp
  obtain ⟨⟨termios', before, after, consumed, whole, left, _, printed, streamed, pending⟩, ended, emptied⟩ :=
    start.ttyWriteLoop reads (by decide) loop
  have behind : after = [] := List.length_eq_zero_iff.mp (left.trans ended)
  -- a carriage return is left over only where a newline is still to come
  have settledReturn : ¬ w.crFlag = true := by
    intro out
    obtain ⟨ch, l, more, _⟩ := pending out
    rw [behind] at more
    cases more
  rw [behind, List.append_nil] at whole
  have empty : w.tty.writeQ.bytes = [] := by
    by_cases more : 0 < n
    · exact emptied more
    · -- nothing was flushed, and nothing was there before
      have nothing : before = [] := by
        rw [← whole]
        exact List.length_eq_zero_iff.mp (length.trans (by omega))
      rw [nothing, if_neg settledReturn] at streamed
      exact (List.append_eq_nil_iff.mp streamed).2
  rw [empty, List.append_nil, if_neg settledReturn, List.append_nil, List.nil_append, ← whole] at streamed
  refine ⟨⟨?_, ?_, upToDate⟩, ?_⟩
  · change (Function.update t.ttyTable 0 w.tty 0).termios = _
    rw [Function.update_self]
    exact termios'
  · change (Function.update t.ttyTable 0 w.tty 0).writeQ.bytes = _
    rw [Function.update_self]
    exact empty
  · change paper screen c = _
    rw [paper, printed, streamed, List.reverse_append, List.reverse_reverse, List.map_append, List.map_map, paper,
      Paper.typeAll, List.foldl_append]
    rfl

theorem console_of_ttyWriteLoop {channel : Nat} (other : channel ≠ 0) {fuel : Nat} {w w' : Writing} {c c' : Console}
    (done : ttyWriteLoop channel fuel m c w = some (w', c')) : c' = c := by
  induction fuel generalizing w with
  | zero => cases done
  | succ fuel ih =>
    rw [Chr.ttyWriteLoop] at done
    split at done
    next =>
      obtain ⟨w₁, _, rest⟩ := Option.bind_eq_some_iff.mp done
      simp only [flush, if_neg other] at rest
      exact ih rest
    next =>
      exact (Prod.mk.inj (Option.some.inj done)).2.symm

/-- A call for a serial line leaves the console and its terminal alone. -/
theorem ttyWrite_other {channel : Nat} (other : channel ≠ 0) {buf nr : BitVec 32}
    (done : ttyWrite m t channel buf nr = some r) :
    r.terminals.ttyTable 0 = t.ttyTable 0 ∧ r.terminals.console = t.console := by
  obtain ⟨⟨w, c⟩, loop, result⟩ := Option.bind_eq_some_iff.mp done
  obtain rfl := (Option.some.inj result).symm
  exact ⟨Function.update_of_ne other.symm _ _, console_of_ttyWriteLoop other loop⟩

/-! ### Whole runs -/

inductive Action
  | sysWrite (m : Memory) (filp : Nat → Option MInode) (fd buf count : BitVec 32)
  | printk (m : Memory) (buf : BitVec 32) (text : Kernel.Print.Result)

/-- The inode of another kind than a character device for which `sysWrite` was called. -/
def refuses (filp : Nat → Option MInode) (fd count : BitVec 32) : Option MInode :=
  if fd.toNat < nrOpen ∧ count ≠ 0 then (filp fd.toNat).filter fun inode => ¬ inode.isChr else none

/-- What `sysWrite` prints then. -/
def refusal : List (BitVec 8) := "(Write)inode->i_mode=%x\n\r".toList.map Kernel.Print.ascii

/-- The call of `vsprintf` in `printk` leaves `text` in `buf`, which has 512 bytes. -/
structure Formatted (m : Memory) (fmt : List (BitVec 8)) (args : List (BitVec 32)) (buf : BitVec 32)
    (text : Kernel.Print.Result) : Prop where
  formatted : ∃ fuel mem, Kernel.Print.vsprintf fuel mem fmt args = some text
  stored : ReadsText m buf.toNat text.buf
  short : text.buf.length ≤ 512

/-- The calls that return. A call of `sysWrite` that is refused prints its report. -/
inductive Step : Terminals → Action → Terminals → Prop
  | sysWrite {t : Terminals} {m : Memory} {filp : Nat → Option MInode} {fd buf count : BitVec 32} {r : WriteResult}
      (accepted : refuses filp fd count = none)
      (done : sysWrite m t filp fd buf count = some r) : Step t (.sysWrite m filp fd buf count) r.terminals
  | refused {t : Terminals} {m : Memory} {filp : Nat → Option MInode} {fd buf count : BitVec 32}
      {text : Kernel.Print.Result} {r : WriteResult} {inode : MInode} (refused : refuses filp fd count = some inode)
      (formatted : Formatted m refusal [inode.iMode.setWidth 32] buf text)
      (done : ttyWrite m t 0 buf (BitVec.ofNat 32 text.ret) = some r) : Step t (.printk m buf text) r.terminals
  | printk {t : Terminals} {m : Memory} {buf : BitVec 32} {text : Kernel.Print.Result} {r : WriteResult}
      {fmt : List (BitVec 8)} {args : List (BitVec 32)} (formatted : Formatted m fmt args buf text)
      (done : ttyWrite m t 0 buf (BitVec.ofNat 32 text.ret) = some r) : Step t (.printk m buf text) r.terminals

/-- The terminals after `initTty`, with what video memory held. -/
def terminals (screen : BitVec 32 → BitVec 16) : System Terminals Action where
  init t := t = { initialTerminals with console := (Console.boot screen).initConsole }
  step := Step

/-- The descriptor is that of the console. -/
def onConsole (filp : Nat → Option MInode) (fd : BitVec 32) : Bool :=
  fd.toNat < nrOpen && (filp fd.toNat).any fun inode => inode.isChr && inode.device == 0x400

/-- What a call writes to the console. -/
def Action.text : Action → List (BitVec 8)
  | .sysWrite m filp fd buf count => if onConsole filp fd then textAt m buf count.toInt.toNat else []
  | .printk _ _ text => text.buf.take text.ret

/-- The paper on which the texts of the calls have been typed. -/
def typedOn (screen : BitVec 32 → BitVec 16) (hist : List (Terminals × Action)) : Paper (BitVec 16) :=
  (sheet screen).typeAll 80 blank (hist.reverse.flatMap fun x => output x.2.text)

theorem typedOn_cons (x : Terminals × Action) (hist : List (Terminals × Action)) :
    typedOn screen (x :: hist) = (typedOn screen hist).typeAll 80 blank (output x.2.text) := by
  simp only [typedOn, Paper.typeAll, List.reverse_cons, List.flatMap_append, List.flatMap_singleton,
    List.foldl_append]

/-- A call that leaves the console alone writes nothing on the paper. -/
theorem Settled.untouched (settled : Settled screen t) {t' : Terminals} (terminal : t'.ttyTable 0 = t.ttyTable 0)
    (console : t'.console = t.console) {text : List (BitVec 8)} (none : text = []) :
    Settled screen t' ∧ paper screen t'.console = (paper screen t.console).typeAll 80 blank (output text) := by
  obtain ⟨termios, empty, upToDate⟩ := settled
  rw [none, console]
  exact ⟨⟨terminal ▸ termios, terminal ▸ empty, console ▸ upToDate⟩, rfl⟩

/-- The device number `0x400` is the only one of terminal 0. -/
theorem zone_of_channel {zone : BitVec 16} (major : (zone.setWidth 32 >>> 8).toNat = 4)
    (minor : (zone.setWidth 32 &&& 0xff).toNat = 0) : zone = 0x400 := by
  have value : (zone.setWidth 32).toNat = zone.toNat := by
    rw [BitVec.toNat_setWidth]
    exact Nat.mod_eq_of_lt (by omega)
  have low : (zone.setWidth 32 &&& 0xff).toNat = zone.toNat % 256 := by
    rw [BitVec.toNat_and, value]
    exact Nat.and_two_pow_sub_one_eq_mod zone.toNat 8
  rw [BitVec.toNat_ushiftRight, value, Nat.shiftRight_eq_div_pow] at major
  apply BitVec.eq_of_toNat_eq
  change zone.toNat = 1024
  omega

/-- `CRW_TABLE` leads to terminal 0 only from there. -/
theorem Settled.rwChar (settled : Settled screen t) {zone : BitVec 16} {buf count : BitVec 32}
    (done : rwChar m t (zone.setWidth 32) buf count = some r) : Settled screen r.terminals ∧
      paper screen r.terminals.console = (paper screen t.console).typeAll 80 blank
        (output (if zone = 0x400 then textAt m buf count.toInt.toNat else [])) := by
  by_cases console : zone = 0x400
  · subst console
    rw [if_pos rfl]
    exact settled.ttyWrite done
  · rw [if_neg console]
    rw [Chr.rwChar] at done
    split at done
    next high =>
      obtain rfl := Option.some.inj done
      exact settled.untouched rfl rfl rfl
    next =>
      split at done
      next none =>
        obtain rfl := Option.some.inj done
        exact settled.untouched rfl rfl rfl
      next driver =>
        have major : (zone.setWidth 32 >>> 8).toNat = 4 := by simpa [crwTable] using driver
        obtain ⟨terminal, same⟩ := ttyWrite_other (mt (zone_of_channel major) console) done
        exact settled.untouched terminal same rfl

/-- `sysWrite` gets as far as the console only for its descriptor. -/
theorem Settled.sysWrite (settled : Settled screen t) {filp : Nat → Option MInode} {fd buf count : BitVec 32}
    (done : sysWrite m t filp fd buf count = some r) : Settled screen r.terminals ∧
      paper screen r.terminals.console = (paper screen t.console).typeAll 80 blank
        (output (Action.sysWrite m filp fd buf count).text) := by
  have elsewhere (quiet : ¬ onConsole filp fd = true) : (Action.sysWrite m filp fd buf count).text = [] := if_neg quiet
  rw [Chr.sysWrite] at done
  split at done
  next high =>
    obtain rfl := Option.some.inj done
    exact settled.untouched rfl rfl (elsewhere (by simp [onConsole]; omega))
  next low =>
    split at done
    next none =>
      obtain rfl := Option.some.inj done
      exact settled.untouched rfl rfl (elsewhere (by simp [onConsole, none]))
    next inode found =>
      have isConsole : inode.isChr → (onConsole filp fd = true ↔ inode.device = 0x400) := by
        intro character
        simp [onConsole, found, character]
        omega
      split at done
      next nothing =>
        obtain rfl := Option.some.inj done
        refine settled.untouched rfl rfl ?_
        rw [Action.text, nothing]
        exact ite_self _
      next =>
        split at done
        next character =>
          rw [Action.text]
          simp only [isConsole character]
          exact settled.rwChar done
        next other =>
          obtain rfl := Option.some.inj done
          exact settled.untouched rfl rfl (elsewhere (by simp [onConsole, found, other]))

theorem vsprintf_length {fuel : Nat} {mem : Kernel.Print.Memory} {fmt : List (BitVec 8)} {args : List (BitVec 32)}
    {text : Kernel.Print.Result} (formatted : Kernel.Print.vsprintf fuel mem fmt args = some text) :
    text.buf.length = text.ret + 1 := by
  obtain ⟨⟨out, rest⟩, _, rfl⟩ := Option.map_eq_some_iff.mp formatted
  exact List.length_append

theorem textAt_printk {buf : BitVec 32} {text : Kernel.Print.Result} (stored : ReadsText m buf.toNat text.buf)
    (length : text.buf.length = text.ret + 1) : textAt m buf text.ret = (Action.printk m buf text).text := by
  rw [Action.text]
  apply List.ext_getElem
  · simp only [textAt, List.length_map, List.length_range, List.length_take]
    omega
  · intro i inside inside'
    have found := stored i (by rw [List.length_take] at inside'; omega)
    rw [BitVec.ofNat_add, BitVec.ofNat_toNat, BitVec.setWidth_eq] at found
    simp only [textAt, List.getElem_map, List.getElem_range, found, Option.getD_some, List.getElem_take]

/-- `printk` types the text that `vsprintf` has left. -/
theorem Settled.printk (settled : Settled screen t) {fmt : List (BitVec 8)} {args : List (BitVec 32)}
    {buf : BitVec 32} {text : Kernel.Print.Result} (formatted : Formatted m fmt args buf text)
    (done : Chr.ttyWrite m t 0 buf (BitVec.ofNat 32 text.ret) = some r) : Settled screen r.terminals ∧
      paper screen r.terminals.console = (paper screen t.console).typeAll 80 blank
        (output (Action.printk m buf text).text) := by
  obtain ⟨⟨fuel, mem, returned⟩, stored, short⟩ := formatted
  have length := vsprintf_length returned
  rw [← textAt_printk stored length]
  have written := settled.ttyWrite done
  rw [toNat_toInt_ofNat (show text.ret < 2 ^ 31 by omega)] at written
  exact written

theorem settled_of_run {hist : List (Terminals × Action)} (run : Run (terminals screen) hist t) :
    Settled screen t ∧ paper screen t.console = typedOn screen hist := by
  induction run with
  | @init t start =>
    obtain rfl := start
    exact ⟨⟨rfl, rfl, upToDate_initConsole screen⟩, rfl⟩
  | @step hist t t' a run taken ih =>
    obtain ⟨settled, same⟩ := ih
    rw [typedOn_cons, ← same]
    cases taken with
    | sysWrite _ done => exact settled.sysWrite done
    | refused _ formatted done => exact settled.printk formatted done
    | printk formatted done => exact settled.printk formatted done

/-- After any calls of `sysWrite` and `printk` the display shows the end of the paper on which their
texts have been typed, as long as it has no more rows than video memory. -/
theorem display_output {hist : List (Terminals × Action)} (run : Run (terminals screen) hist t)
    (fits : (typedOn screen hist).row < 204) : t.console.shown = (typedOn screen hist).picture 80 25 := by
  obtain ⟨⟨_, _, upToDate⟩, same⟩ := settled_of_run run
  rw [← same] at fits ⊢
  obtain ⟨shows, set⟩ := upToDate fits
  rw [← set]
  exact shows.shown fits

/-- Memory right after boot, with `Hi` in the page 256. -/
def hiMemory : Memory := { Mm.Spaces.bootMemory with page := Function.update Mm.Spaces.bootMemory.page 256 fun _ => 0x6948 }

theorem readsText_hi : ReadsText hiMemory (0x100000 : BitVec 32).toNat [72, 105, 0] := by
  intro i inside
  have three : i = 0 ∨ i = 1 ∨ i = 2 := by
    simp only [List.length_cons, List.length_nil] at inside
    omega
  rcases three with rfl | rfl | rfl
  · exact rfl
  · exact rfl
  · exact rfl

/-- The kernel prints it. -/
theorem display_output_hi : ∃ t : Terminals,
    Run (terminals fun _ => 0) [(initialTerminals, .printk hiMemory 0x100000 ⟨[72, 105, 0], 2, []⟩)] t ∧
      t.console.shown.cells 9 0 = 0x0F48 ∧ t.console.shown.cells 9 1 = 0x0F69 := by
  have readable : ∀ i < 2, ∃ c, hiMemory.readByte (BitVec.ofNat 32 (0x100000 + i)) = some c :=
    fun i inside => ⟨_, readsText_hi i (Nat.lt_succ_of_lt inside)⟩
  obtain ⟨t, loads, written, _⟩ := ttyWrite_zero hiMemory initialTerminals 0x100000 2 readable
    (toNat_toInt_ofNat (by decide))
  have formatted : Formatted hiMemory [72, 105] [] 0x100000 ⟨[72, 105, 0], 2, []⟩ :=
    ⟨⟨3, ⟨fun _ _ => 0, fun _ => []⟩, rfl⟩, readsText_hi, by decide⟩
  have run : Run (terminals fun _ => 0) [(initialTerminals, .printk hiMemory 0x100000 ⟨[72, 105, 0], 2, []⟩)] t :=
    .step (.init rfl) (.printk formatted written)
  have keys : output [72, 105] = [.mark 0x0F48, .mark 0x0F69] := by
    simp [output, translate, key, opost, onlcr, mapReturn]
  have typed : typedOn (fun _ => 0) [(initialTerminals, .printk hiMemory 0x100000 ⟨[72, 105, 0], 2, []⟩)] =
      (sheet fun _ => 0).typeAll 80 blank [.mark 0x0F48, .mark 0x0F69] :=
    congrArg ((sheet fun _ => 0).typeAll 80 blank) keys
  have shown := display_output run (by rw [typed]; decide)
  rw [typed] at shown
  refine ⟨t, run, ?_, ?_⟩
  · rw [shown]
    decide
  · rw [shown]
    decide

end OperatorSystem.Chr
