import OperatorSystem.Chr.Queue
import OperatorSystem.Chr.Tty

/-!
# The output of a terminal

`ttyWrite` translates a text character by character into a ring of 1024 places,
and flushes the ring whenever it is full, also between the two characters that a
newline turns into. The main result `ttyWrite_output` says that the console
prints what was queued before and then the translated text, wherever the ring
fills up. A text without characters is the exception: nothing is flushed for it.
-/

namespace OperatorSystem.Chr

open OperatorSystem.Mm (Memory)

/-- What a character of the text becomes, with `OLCUC` clear. -/
def translate (oflag : BitVec 32) (c : BitVec 8) : List (BitVec 8) :=
  if oflag &&& opost ≠ 0 then
    if mapReturn oflag c = 10 ∧ oflag &&& onlcr ≠ 0 then [13, 10] else [mapReturn oflag c]
  else [c]

/-- The character becomes a carriage return and a newline. -/
def Paired (oflag : BitVec 32) (c : BitVec 8) : Prop :=
  oflag &&& opost ≠ 0 ∧ mapReturn oflag c = 10 ∧ oflag &&& onlcr ≠ 0

theorem translate_paired {oflag : BitVec 32} {c : BitVec 8} (paired : Paired oflag c) :
    translate oflag c = [13, 10] := by
  rw [translate, if_pos paired.1, if_pos paired.2]

/-- The text lies in memory from the address `buf` on. -/
def ReadsText (m : Memory) (buf : Nat) (text : List (BitVec 8)) : Prop :=
  ∀ i (inside : i < text.length), m.readByte (BitVec.ofNat 32 (buf + i)) = some text[i]

/-- Where `ttyWrite` is in its text. What the console has consumed since the call
began, together with the queue, is what was queued before and the translation of
the characters written; a carriage return may be out ahead of its newline. -/
structure Streamed (buf : Nat) (text queued : List (BitVec 8)) (oflag : BitVec 32) (verase : BitVec 8)
    (printed : List (BitVec 8 × BitVec 8)) (w : Writing) (c : Console) : Prop where
  termios : w.tty.termios = ⟨oflag, verase⟩
  output : ∃ before after consumed, text = before ++ after ∧ after.length = w.nr ∧
    w.b = BitVec.ofNat 32 (buf + before.length) ∧
    c.printed = (consumed.map fun ch => (verase, ch)).reverse ++ printed ∧
    consumed ++ w.tty.writeQ.bytes =
      queued ++ before.flatMap (translate oflag) ++ (if w.crFlag then [13] else []) ∧
    (w.crFlag → ∃ ch l, after = ch :: l ∧ Paired oflag ch)

section Stream

variable {m : Memory} {buf : Nat} {text queued : List (BitVec 8)} {oflag : BitVec 32} {verase : BitVec 8}
  {printed : List (BitVec 8 × BitVec 8)} {w w' : Writing} {c c' : Console}

/-- One round of the inner loop, by what the character becomes. -/
theorem Streamed.next (reads : ReadsText m buf text) (upper : oflag &&& olcuc = 0)
    (streamed : Streamed buf text queued oflag verase printed w c) (more : 0 < w.nr)
    (room : ¬ w.tty.writeQ.full) (done : w.next m = some w') :
    Streamed buf text queued oflag verase printed w' c := by
  obtain ⟨termios, before, after, consumed, whole, length, position, screen, output, pending⟩ := streamed
  obtain ⟨ch, rest, rfl⟩ : ∃ ch l, after = ch :: l := by
    cases after with
    | nil => simp at length; omega
    | cons ch l => exact ⟨ch, l, rfl⟩
  have read : m.readByte w.b = some ch := by
    rw [position, reads before.length (by rw [whole]; simp)]
    simp [whole]
  have flags : w.tty.termios.cOflag = oflag := by rw [termios]
  -- the last character of a translation finishes the character of the text
  have finished : ∀ last : BitVec 8, translate oflag ch = (if w.crFlag then [13] else []) ++ [last] →
      Streamed buf text queued oflag verase printed
        (Writing.emit { w with loads := w.loads ++ [(w.b, ch)] } last) c := by
    intro last translated
    refine ⟨termios, before ++ [ch], rest, consumed, by rw [whole, List.append_assoc]; rfl, ?_, ?_, screen, ?_, ?_⟩
    · change rest.length = w.nr - 1
      rw [List.length_cons] at length
      omega
    · change w.b + 1 = _
      rw [position, List.length_append, ← Nat.add_assoc]
      exact (BitVec.ofNat_add (buf + before.length) 1).symm
    · change consumed ++ (w.tty.writeQ.put last).bytes = _
      rw [TtyQueue.bytes_put last room, ← List.append_assoc, output, List.flatMap_append]
      simp [Writing.emit, translated]
    · intro impossible
      cases impossible
  rw [Writing.next, read] at done
  simp only [Option.bind_eq_bind, Option.bind_some, Option.pure_def, flags] at done
  split at done
  next processed =>
    split at done
    next newline =>
      -- the carriage return goes out first
      obtain rfl := Option.some.inj done
      obtain ⟨isNewline, noReturn, feed⟩ := newline
      refine ⟨termios, before, ch :: rest, consumed, whole, length, position, screen, ?_, ?_⟩
      · change consumed ++ (w.tty.writeQ.put 13).bytes = _
        rw [TtyQueue.bytes_put 13 room, ← List.append_assoc, output]
        simp [Writing.emitReturn, noReturn]
      · exact fun _ => ⟨ch, rest, rfl, processed, isNewline, feed⟩
    next other =>
      rw [upper] at done
      simp only [ne_eq, not_true, if_false] at done
      obtain rfl := Option.some.inj done
      refine finished _ ?_
      by_cases out : w.crFlag = true
      · obtain ⟨ch', l, same, paired⟩ := pending out
        obtain ⟨rfl, rfl⟩ := List.cons.inj same
        rw [translate_paired paired, if_pos out, paired.2.1]
        rfl
      · have single : ¬ (mapReturn oflag ch = 10 ∧ oflag &&& onlcr ≠ 0) :=
          fun both => other ⟨both.1, out, both.2⟩
        rw [translate, if_pos processed, if_neg single, if_neg out]
        rfl
  next raw =>
    obtain rfl := Option.some.inj done
    refine finished ch ?_
    have quiet : ¬ w.crFlag = true := by
      intro out
      obtain ⟨ch', l, _, paired⟩ := pending out
      exact raw paired.1
    rw [translate, if_neg raw, if_neg quiet]
    rfl

theorem Streamed.fill (reads : ReadsText m buf text) (upper : oflag &&& olcuc = 0) {fuel : Nat}
    (streamed : Streamed buf text queued oflag verase printed w c) (done : w.fill fuel m = some w') :
    Streamed buf text queued oflag verase printed w' c := by
  induction fuel generalizing w with
  | zero => cases done
  | succ fuel ih =>
    rw [Writing.fill] at done
    split at done
    next again =>
      obtain ⟨w₁, step, rest⟩ := Option.bind_eq_some_iff.mp done
      exact ih (streamed.next reads upper again.1 again.2 step) rest
    next =>
      obtain rfl := Option.some.inj done
      exact streamed

/-- A flush consumes the queue. -/
theorem Streamed.flush (streamed : Streamed buf text queued oflag verase printed w c) :
    Streamed buf text queued oflag verase printed { w with tty := (flush 0 w.tty c).1 } (flush 0 w.tty c).2 ∧
      (flush 0 w.tty c).1.writeQ.bytes = [] := by
  obtain ⟨termios, before, after, consumed, whole, length, position, screen, output, pending⟩ := streamed
  rw [Chr.flush, if_pos rfl]
  obtain ⟨empty, consumes⟩ := conWrite_bytes w.tty c
  refine ⟨⟨(free_conWrite w.tty c).1.trans termios, before, after, consumed ++ w.tty.writeQ.bytes, whole, length,
    position, ?_, ?_, pending⟩, empty⟩
  · rw [consumes, screen, termios, List.map_append, List.reverse_append, List.append_assoc]
  · rw [empty, List.append_nil]
    exact output

/-- The outer loop ends with the whole text behind it, and with an empty queue
if there was any text. -/
theorem Streamed.ttyWriteLoop (reads : ReadsText m buf text) (upper : oflag &&& olcuc = 0) {fuel : Nat}
    (streamed : Streamed buf text queued oflag verase printed w c)
    (done : ttyWriteLoop 0 fuel m c w = some (w', c')) :
    Streamed buf text queued oflag verase printed w' c' ∧ w'.nr = 0 ∧ (0 < w.nr → w'.tty.writeQ.bytes = []) := by
  induction fuel generalizing w c with
  | zero => cases done
  | succ fuel ih =>
    rw [Chr.ttyWriteLoop] at done
    split at done
    next more =>
      obtain ⟨w₁, filled, rest⟩ := Option.bind_eq_some_iff.mp done
      obtain ⟨flushed, empty⟩ := (streamed.fill reads upper filled).flush
      obtain ⟨final, finished, later⟩ := ih flushed rest
      -- every round ends with a flush, also the last one
      refine ⟨final, finished, fun _ => ?_⟩
      by_cases last : 0 < w₁.nr
      · exact later last
      · -- this was the last round, and its flush has emptied the queue
        cases fuel with
        | zero => cases rest
        | succ fuel =>
          rw [Chr.ttyWriteLoop] at rest
          have ended := (if_neg last).symm.trans rest
          obtain ⟨rfl, rfl⟩ := Prod.mk.inj (Option.some.inj ended)
          exact empty
    next stop =>
      obtain ⟨rfl, rfl⟩ := Prod.mk.inj (Option.some.inj done)
      exact ⟨streamed, by omega, fun more => absurd more stop⟩

end Stream

/-- A write to terminal 0 returns the length of the text. If there is any text,
the console prints what was queued and then the translation of the text, and the
queue is left empty; otherwise nothing happens. -/
theorem ttyWrite_output (m : Memory) (t : Terminals) (buf : Nat) (text : List (BitVec 8))
    (reads : ReadsText m buf text) (small : text.length < 2 ^ 31)
    (upper : (t.ttyTable 0).termios.cOflag &&& olcuc = 0) :
    ∃ r, ttyWrite m t 0 (BitVec.ofNat 32 buf) (BitVec.ofNat 32 text.length) = some r ∧
      r.ret = BitVec.ofNat 32 text.length ∧
      if text = [] then r.terminals = t
      else (r.terminals.ttyTable 0).writeQ.bytes = [] ∧ r.terminals.console.printed =
        (((t.ttyTable 0).writeQ.bytes ++ text.flatMap (translate (t.ttyTable 0).termios.cOflag)).map
          fun ch => ((t.ttyTable 0).termios.verase, ch)).reverse ++ t.console.printed := by
  have count := toNat_toInt_ofNat small
  have readable : ∀ i < text.length, ∃ c, m.readByte (BitVec.ofNat 32 (buf + i)) = some c :=
    fun i inside => ⟨_, reads i inside⟩
  obtain ⟨t', loads, written, _⟩ := ttyWrite_zero m t buf text.length readable count
  refine ⟨_, written, rfl, ?_⟩
  obtain ⟨⟨w, c⟩, loop, result⟩ := Option.bind_eq_some_iff.mp written
  simp only [Option.pure_def, Option.some.injEq, WriteResult.mk.injEq] at result
  obtain ⟨rfl, _, _⟩ := result
  rw [count] at loop
  -- before the loop all of the text is still to be read
  have start : Streamed buf text (t.ttyTable 0).writeQ.bytes (t.ttyTable 0).termios.cOflag
      (t.ttyTable 0).termios.verase t.console.printed
      ⟨t.ttyTable 0, BitVec.ofNat 32 buf, text.length, false, []⟩ t.console :=
    ⟨rfl, [], text, [], rfl, rfl, rfl, rfl, by simp, by simp⟩
  by_cases none : text = []
  · subst none
    have stopped : some (_, _) = some (w, c) := loop
    obtain ⟨rfl, rfl⟩ := Prod.mk.inj (Option.some.inj stopped)
    rw [if_pos rfl, Function.update_eq_self]
  · obtain ⟨⟨_, before, after, consumed, whole, length, _, screen, output, pending⟩, ended, emptied⟩ :=
      start.ttyWriteLoop reads upper loop
    have empty := emptied (List.length_pos_iff.mpr none)
    have behind : after = [] := List.length_eq_zero_iff.mp (length.trans ended)
    -- a carriage return is left over only where a newline is still to come
    have settled : ¬ w.crFlag = true := by
      intro out
      obtain ⟨ch, l, more, _⟩ := pending out
      rw [behind] at more
      cases more
    rw [behind, List.append_nil] at whole
    rw [empty, List.append_nil, if_neg settled, List.append_nil] at output
    rw [if_neg none]
    constructor
    · change (Function.update t.ttyTable 0 w.tty 0).writeQ.bytes = []
      rw [Function.update_self]
      exact empty
    · change c.printed = _
      rw [screen, output, ← whole]

/-! ### A text without characters -/

/-- One character is queued for the console. -/
def oneQueued : Terminals :=
  { initialTerminals with ttyTable := fun _ => ⟨⟨opost ||| onlcr, 0x7f⟩, (initialTerminals.ttyTable 0).writeQ.put 65⟩ }

/-- A write of no characters leaves it in the queue. -/
theorem ttyWrite_nothing : ¬ ∀ (m : Memory) (t : Terminals) (buf : Nat) (text : List (BitVec 8)),
    ReadsText m buf text → text.length < 2 ^ 31 → (t.ttyTable 0).termios.cOflag &&& olcuc = 0 →
    ∃ r, ttyWrite m t 0 (BitVec.ofNat 32 buf) (BitVec.ofNat 32 text.length) = some r ∧
      r.ret = BitVec.ofNat 32 text.length ∧ r.terminals.console.printed =
        (((t.ttyTable 0).writeQ.bytes ++ text.flatMap (translate (t.ttyTable 0).termios.cOflag)).map
          fun ch => ((t.ttyTable 0).termios.verase, ch)).reverse ++ t.console.printed := by
  intro always
  obtain ⟨r, written, _, printed⟩ := always Mm.Spaces.bootMemory oneQueued 0 []
    (fun i inside => absurd inside (Nat.not_lt_zero i)) (by decide) (by decide)
  have nothing : ttyWrite Mm.Spaces.bootMemory oneQueued 0 (BitVec.ofNat 32 0) (BitVec.ofNat 32 0) =
      some ⟨⟨Function.update oneQueued.ttyTable 0 (oneQueued.ttyTable 0), oneQueued.console⟩, 0, []⟩ := rfl
  rw [← Option.some.inj (nothing.symm.trans written)] at printed
  have lengths := congrArg List.length printed
  simp [TtyQueue.length_bytes] at lengths
  revert lengths
  decide

/-! ### A newline that finds one place -/

/-- A memory with a newline and a letter at the address `0x50000`. -/
def newlineMemory : Memory :=
  { Mm.Spaces.bootMemory with
    page := fun f => if f = 80 then fun _ => 0x420a else Mm.Spaces.bootMemory.page f }

theorem last_place : 1022 < ttyBufSize := by decide

/-- One place is left in the queue of the console. -/
def almostFull : Terminals :=
  { initialTerminals with
    ttyTable := fun _ => ⟨⟨opost ||| onlcr, 0x7f⟩, ⟨1022, 0, fun _ => 65, last_place, ttyBufSize_pos⟩⟩ }

/-- The carriage return takes the last place, and the newline goes out after the flush. -/
theorem ttyWrite_output_newline : ∃ r,
    ttyWrite newlineMemory almostFull 0 (BitVec.ofNat 32 0x50000) (BitVec.ofNat 32 2) = some r ∧
      r.ret = 2 ∧ (r.terminals.ttyTable 0).writeQ.bytes = [] ∧
      r.terminals.console.printed = [(0x7f, 66), (0x7f, 10), (0x7f, 13)] ++ List.replicate 1022 (0x7f, 65) := by
  have newline : newlineMemory.readByte (BitVec.ofNat 32 0x50000) = some 10 := by decide +kernel
  have letter : newlineMemory.readByte (BitVec.ofNat 32 0x50001) = some 66 := by decide +kernel
  have reads : ReadsText newlineMemory 0x50000 [10, 66] := by
    intro i inside
    obtain rfl | rfl : i = 0 ∨ i = 1 := by
      simp only [List.length_cons, List.length_nil] at inside
      omega
    · exact newline
    · exact letter
  obtain ⟨r, written, ret, printed⟩ :=
    ttyWrite_output newlineMemory almostFull 0x50000 [10, 66] reads (by decide) (by decide)
  rw [if_neg (List.cons_ne_nil _ _)] at printed
  have queued : (almostFull.ttyTable 0).writeQ.bytes = List.replicate 1022 65 := by decide +kernel
  have text : [10, 66].flatMap (translate (almostFull.ttyTable 0).termios.cOflag) = [13, 10, 66] := by decide
  refine ⟨r, written, ret, printed.1, printed.2.trans ?_⟩
  rw [queued, text, List.map_append, List.map_replicate, List.reverse_append, List.reverse_replicate]
  exact List.append_nil _

end OperatorSystem.Chr
