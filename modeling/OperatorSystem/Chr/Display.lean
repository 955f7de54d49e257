import OperatorSystem.Chr.Cursor
import OperatorSystem.Chr.Scrolling
import OperatorSystem.Library.Paper

/-!
# What the display shows

The display controller shows 25 rows of 80 cells of video memory, from the cell
in its registers 12 and 13 on, and a cursor at the cell in its registers 14 and
15. The console keeps both up with a typewriter: as long as the text fits into
video memory, the display shows the last rows of the paper.
-/

namespace OperatorSystem.Chr

open Transition (System Run Reachable)

namespace Console

/-! ### The keys of a terminal -/

/-- What a character does, in the order in which `conWrite` asks. -/
def key (verase ch : BitVec 8) : Paper.Key (BitVec 16) :=
  if ch.toInt > 31 ∧ ch.toInt < 127 then .mark (0x0F00 ||| ch.setWidth 16)
  else if ch = 27 then .dead
  else if ch = 10 ∨ ch = 11 ∨ ch = 12 then .feed
  else if ch = 13 then .home
  else if ch.toInt = verase.toNat then .rubout
  else if ch = 8 then .back
  else if ch = 9 then .tab
  else .dead

/-- The branch of `conWrite` for a key. -/
def press (c : Console) : Paper.Key (BitVec 16) → Console
  | .mark v =>
    let c := if c.x ≥ videoNumColumns then c.wrap else c
    { c.store c.pos v with x := c.x + 1, pos := c.pos + 2 }
  | .feed => c.lf
  | .home => c.cr
  | .rubout => c.del
  | .back => if c.x ≠ 0 then { c with x := c.x - 1, pos := c.pos - 2 } else c
  | .tab => c.tab
  | .dead => c

variable {c : Console} {p : Paper (BitVec 16)} {n x : Nat}

@[simp] theorem lf_attr : c.lf.attr = c.attr := by
  unfold lf scrollUp
  split
  · rfl
  · split <;> rfl

@[simp] theorem lf_screen : c.lf.screen = c.screen := by
  unfold lf scrollUp
  split
  · rfl
  · split <;> rfl

@[simp] theorem wrap_attr : c.wrap.attr = c.attr := lf_attr

@[simp] theorem wrap_screen : c.wrap.screen = c.screen := lf_screen

@[simp] theorem tab_attr : c.tab.attr = c.attr := by
  unfold tab
  dsimp only
  split
  · exact wrap_attr
  · rfl

@[simp] theorem tab_screen : c.tab.screen = c.screen := by
  unfold tab
  dsimp only
  split
  · exact wrap_screen
  · rfl

theorem putChar_eq_press (white : c.attr = 0x0F00) (verase ch : BitVec 8) :
    c.putChar verase ch = c.press (key verase ch) := by
  have marked : (if c.x ≥ videoNumColumns then c.wrap else c).attr = 0x0F00 := by
    split
    · exact wrap_attr.trans white
    · exact white
  unfold putChar key
  by_cases printable : ch.toInt > 31 ∧ ch.toInt < 127
  · simp only [if_pos printable, press, marked]
  · simp only [if_neg printable]
    -- the branches come in the order of the source, and each is the same on both sides
    iterate 6
      split
      · rfl
    rfl

/-! ### Registers -/

/-- The registers 12 and 13 have the cell of `origin`. -/
structure Started (c : Console) : Prop where
  high : c.startHigh = (((c.origin - videoMemStart) >>> 9) &&& 0xff).setWidth 8
  low : c.startLow = (((c.origin - videoMemStart) >>> 1) &&& 0xff).setWidth 8

theorem Started.lf (started : c.Started) : c.lf.Started := by
  unfold Console.lf scrollUp
  split
  · exact { started with }
  · split
    · exact ⟨rfl, rfl⟩
    · exact started

theorem Started.wrap (started : c.Started) : c.wrap.Started :=
  Started.lf (c := { c with x := c.x - videoNumColumns, pos := c.pos - videoSizeRow }) { started with }

theorem Started.tab (started : c.Started) : c.tab.Started := by
  unfold Console.tab
  dsimp only
  split
  · exact Started.wrap { started with }
  · exact { started with }

/-- The number of a cell in video memory, from its two registers. -/
theorem registers_cell {a : BitVec 32} {k : Nat} (here : a.toNat = 0xB8000 + 2 * k) (small : k < 0x10000) :
    ((((a - videoMemStart) >>> 9) &&& 0xff).setWidth 8).toNat * 256 +
      ((((a - videoMemStart) >>> 1) &&& 0xff).setWidth 8).toNat = k := by
  have distance : (a - videoMemStart).toNat = 2 * k := by
    rw [BitVec.toNat_sub_of_le]
    · change a.toNat - 753664 = _
      omega
    · rw [BitVec.le_def, here]
      exact Nat.le_add_right _ _
  have byte (m : BitVec 32) : ((m &&& 0xff).setWidth 8).toNat = m.toNat % 256 := by
    rw [BitVec.toNat_setWidth, BitVec.toNat_and]
    change (m.toNat &&& 2 ^ 8 - 1) % 256 = _
    rw [Nat.and_two_pow_sub_one_eq_mod]
    exact Nat.mod_mod _ _
  rw [byte, byte, BitVec.toNat_ushiftRight, BitVec.toNat_ushiftRight, distance, Nat.shiftRight_eq_div_pow,
    Nat.shiftRight_eq_div_pow]
  omega

/-! ### The console as a typewriter -/

/-- Erased cells are white spaces. -/
def blank : BitVec 16 := 0x0F20

/-- The console stands where the carriage stands, and video memory holds the paper. -/
structure Shows (c : Console) (p : Paper (BitVec 16)) : Prop where
  place : c.At p.column (p.row - 9)
  below : 9 ≤ p.row
  inside : p.column ≤ 80
  attr : c.attr = 0x0F00
  cells : ∀ r < 204, ∀ x < 80, c.screen (BitVec.ofNat 32 (cell r x)) = p.cells r x
  started : c.Started

/-- A store to a cell of the paper. -/
theorem screen_update {r x : Nat} (row : r < 204) (column : x < 80) {a : BitVec 32} {r' x' : Nat} (inside : x' < 80)
    (row' : r' < 204) (here : a.toNat = cell r' x') (v : BitVec 16) :
    Function.update c.screen a v (BitVec.ofNat 32 (cell r x)) =
      if r = r' ∧ x = x' then v else c.screen (BitVec.ofNat 32 (cell r x)) := by
  have address : (BitVec.ofNat 32 (cell r x)).toNat = cell r x := by
    rw [BitVec.toNat_ofNat]
    exact Nat.mod_eq_of_lt (by simp only [cell]; omega)
  by_cases same : r = r' ∧ x = x'
  · obtain ⟨rfl, rfl⟩ := same
    have hit : BitVec.ofNat 32 (cell r x) = a := BitVec.eq_of_toNat_eq (address.trans here.symm)
    rw [if_pos ⟨rfl, rfl⟩, hit, Function.update_self]
  · rw [if_neg same, Function.update_of_ne]
    intro hit
    -- two cells with one address are the same
    rw [← hit, address] at here
    simp only [cell] at here
    omega

/-- A cell of the carriage's row is stored. -/
theorem Shows.store (shows : c.Shows p) (fits : p.row < 204) (v : BitVec 16) (column : Nat) {c' : Console}
    {column' : Nat} (left : column < 80) (place : c'.At column' (p.row - 9)) (inside : column' ≤ 80)
    {a : BitVec 32} (here : a.toNat = cell p.row column)
    (screen : c'.screen = Function.update c.screen a v) (attr : c'.attr = c.attr) (started : c'.Started) :
    c'.Shows { ({ p with column } : Paper _).put v with column := column' } := by
  refine ⟨place, shows.below, inside, attr.trans shows.attr, ?_, started⟩
  intro r row x stored
  rw [screen, screen_update row stored left fits here, Paper.put_cells]
  split
  · rfl
  · exact shows.cells r row x stored

theorem Shows.turn (shows : c.Shows p) :
    (if c.x ≥ videoNumColumns then c.wrap else c).Shows (p.turn 80) ∧ (p.turn 80).column < 80 := by
  have border : c.x ≥ videoNumColumns ↔ 80 ≤ p.column := by
    rw [ge_iff_le, BitVec.le_def, shows.place.column]
    rfl
  have inside := shows.inside
  by_cases full : 80 ≤ p.column
  · rw [if_pos (border.mpr full), Paper.turn, if_pos full]
    have next : p.row - 9 + 1 = p.row + 1 - 9 := (Nat.sub_add_comm shows.below).symm
    refine ⟨⟨next ▸ shows.place.wrap full (by omega), Nat.le_succ_of_le shows.below, ?_, ?_, ?_,
      shows.started.wrap⟩, ?_⟩
    · change p.column - 80 ≤ 80
      omega
    · exact wrap_attr.trans shows.attr
    · rw [wrap_screen]
      exact shows.cells
    · change p.column - 80 < 80
      omega
  · rw [if_neg (mt border.mp full), Paper.turn, if_neg full]
    exact ⟨shows, by omega⟩

/-- The cursor moves along its row. -/
theorem Shows.move (shows : c.Shows p) {a b : BitVec 32} {column : Nat} (inside : column ≤ 80)
    (place : ({ c with x := a, pos := b } : Console).At column (p.row - 9)) :
    ({ c with x := a, pos := b } : Console).Shows { p with column } :=
  ⟨place, shows.below, inside, shows.attr, shows.cells, { shows.started with }⟩

theorem Shows.feed (shows : c.Shows p) : c.lf.Shows { p with row := p.row + 1 } := by
  have inside := shows.inside
  have next : p.row - 9 + 1 = p.row + 1 - 9 := (Nat.sub_add_comm shows.below).symm
  refine ⟨next ▸ shows.place.lf (by omega), Nat.le_succ_of_le shows.below, shows.inside, ?_, ?_,
    shows.started.lf⟩
  · exact lf_attr.trans shows.attr
  · rw [lf_screen]
    exact shows.cells

/-- As long as the paper fits, the row of the console is that of the carriage. -/
theorem Shows.row_eq (shows : c.Shows p) (fits : p.row < 204) : 9 + min (p.row - 9) 195 = p.row := by
  have below := shows.below
  omega

theorem Shows.mark (shows : c.Shows p) (left : p.column < 80) (fits : p.row < 204) (v : BitVec 16) :
    ({ c.store c.pos v with x := c.x + 1, pos := c.pos + 2 } : Console).Shows
      { p.put v with column := p.column + 1 } := by
  apply shows.store fits v p.column left (shows.place.printable left v) left
  · rw [shows.place.pos, shows.row_eq fits, cell]
  · rfl
  · rfl
  · exact { shows.started with }

theorem Shows.rubout (shows : c.Shows p) (fits : p.row < 204) : c.del.Shows (p.type 80 blank .rubout) := by
  have inside := shows.inside
  have erased := shows.place.del inside
  rw [Paper.type]
  by_cases border : c.x = 0
  · have start : p.column = 0 := by
      rw [← shows.place.column, border]
      rfl
    rw [if_pos start, del, if_neg (not_not.mpr border)]
    exact shows
  · obtain ⟨position, nonzero, _⟩ := shows.place.back (by omega) border
    -- what is stored is `attr | 0x20`
    have white : c.attr ||| 0x20 = blank := by
      rw [shows.attr]
      rfl
    rw [if_neg (by omega)]
    rw [del, if_pos border, white] at erased ⊢
    apply shows.store fits blank (p.column - 1) (by omega) erased (by omega)
    · rw [position, shows.row_eq fits, cell]
    · rfl
    · rfl
    · exact { shows.started with }

theorem type_tab (p : Paper (BitVec 16)) : p.type 80 blank .tab =
    { p with row := p.row + (advanceTab p.column).2, column := (advanceTab p.column).1 } := by
  simp only [Paper.type, advanceTab]
  split <;> rfl

theorem Shows.tab (shows : c.Shows p) : c.tab.Shows (p.type 80 blank .tab) := by
  obtain ⟨place, inside⟩ := shows.place.tab shows.inside
  rw [← Nat.sub_add_comm shows.below] at place
  rw [type_tab]
  refine ⟨place, Nat.le_add_right_of_le shows.below, inside, tab_attr.trans shows.attr, ?_, shows.started.tab⟩
  rw [tab_screen]
  exact shows.cells

/-- Each branch of `conWrite` does to the screen what its key does to the paper. -/
theorem Shows.press (shows : c.Shows p) (k : Paper.Key (BitVec 16)) (fits : (p.type 80 blank k).row < 204) :
    (c.press k).Shows (p.type 80 blank k) := by
  have inside := shows.inside
  cases k with
  | mark v =>
    obtain ⟨turned, left⟩ := shows.turn
    exact turned.mark left fits v
  | feed => exact shows.feed
  | home => exact shows.move (Nat.zero_le 80) (shows.place.cr (by omega))
  | rubout =>
    have row : (p.type 80 blank .rubout).row = p.row := by
      rw [Paper.type]
      split <;> rfl
    exact shows.rubout (row ▸ fits)
  | back =>
    rw [Console.press]
    split
    next positive => exact shows.move (by omega) (shows.place.back (by omega) positive).2.2
    next border =>
      have start : p.column = 0 := by
        rw [← shows.place.column, not_not.mp border]
        rfl
      have same : p.type 80 blank .back = p := by
        rw [Paper.type, start, Nat.zero_sub, ← start]
      rw [same]
      exact shows
  | tab => exact shows.tab
  | dead => exact shows

theorem Shows.printAll (shows : c.Shows p) (verase : BitVec 8) (text : List (BitVec 8))
    (fits : (p.typeAll 80 blank (text.map (key verase))).row < 204) :
    (c.printAll verase text).Shows (p.typeAll 80 blank (text.map (key verase))) := by
  induction text generalizing c p with
  | nil => exact shows
  | cons ch text ih =>
    have bounds : p.row ≤ (p.type 80 blank (key verase ch)).row ∧ (p.type 80 blank (key verase ch)).column ≤ 80 :=
      Paper.type_bounds shows.inside (by decide) (key verase ch)
    have first : (p.type 80 blank (key verase ch)).row < 204 :=
      Nat.lt_of_le_of_lt (Paper.typeAll_bounds bounds.2 (by decide) (text.map (key verase))).1 fits
    have pressed := shows.press (key verase ch) first
    rw [← putChar_eq_press shows.attr] at pressed
    exact ih (c := c.print verase ch)
      ⟨⟨pressed.place.column, pressed.place.row, pressed.place.bottom, pressed.place.pos, pressed.place.origin,
        pressed.place.scrEnd, pressed.place.stores⟩, pressed.below, pressed.inside, pressed.attr, pressed.cells,
        { pressed.started with }⟩ fits

theorem Shows.setCursor (shows : c.Shows p) : c.setCursor.Shows p :=
  ⟨⟨shows.place.column, shows.place.row, shows.place.bottom, shows.place.pos, shows.place.origin,
    shows.place.scrEnd, shows.place.stores⟩, shows.below, shows.inside, shows.attr, shows.cells,
    { shows.started with }⟩

/-! ### The display controller -/

/-- The number of the first cell on display. -/
def start (c : Console) : Nat := c.startHigh.toNat * 256 + c.startLow.toNat

/-- What the display controller shows. -/
def shown (c : Console) : Paper.Picture 80 25 (BitVec 16) where
  cells r x := c.screen (BitVec.ofNat 32 (0xB8000 + 2 * (c.start + 80 * r + x)))
  carriage := c.cursorHigh.toNat * 256 + c.cursorLow.toNat - c.start

theorem Shows.start (shows : c.Shows p) (fits : p.row < 204) : c.start = 80 * p.top 25 := by
  have row := shows.row_eq fits
  have below := shows.below
  have origin : c.origin.toNat = 0xB8000 + 2 * (80 * p.top 25) := by
    rw [shows.place.origin, Paper.top]
    omega
  rw [Console.start, shows.started.high, shows.started.low]
  exact registers_cell origin (by rw [Paper.top]; omega)

/-- The window and the cursor are where the registers say. -/
theorem Shows.shown (shows : c.Shows p) (fits : p.row < 204) : c.setCursor.shown = p.picture 80 25 := by
  have inside := shows.inside
  have first : c.setCursor.start = 80 * p.top 25 := shows.start fits
  have position : c.pos.toNat = 0xB8000 + 2 * (80 * p.row + p.column) := by
    rw [shows.place.pos, shows.row_eq fits]
    omega
  have cursor : c.setCursor.cursorHigh.toNat * 256 + c.setCursor.cursorLow.toNat = 80 * p.row + p.column :=
    registers_cell position (by omega)
  have window : p.top 25 ≤ p.row ∧ p.top 25 + 24 < 204 := by
    rw [Paper.top]
    omega
  rw [Console.shown, Paper.picture, first, cursor]
  congr 1
  · funext r x
    have row : 0xB8000 + 2 * (80 * p.top 25 + 80 * r.val + x.val) = cell (p.top 25 + r) x := by
      rw [cell]
      omega
    rw [row]
    exact shows.cells _ (by omega) x x.isLt
  · omega

end Console

/-! ### Whole runs -/

open Console

/-- The paper before the first character: what video memory held. -/
def sheet (screen : BitVec 32 → BitVec 16) : Paper (BitVec 16) where
  cells r x := screen (BitVec.ofNat 32 (cell r x))
  row := 9
  column := 0

/-- Calls of `conWrite`, with what video memory held before. -/
def session (screen : BitVec 32 → BitVec 16) : System Console Tty where
  init c := c = (Console.boot screen).initConsole
  step c tty c' := c' = (conWrite tty c).2

/-- The keys of the characters that were in the queues, in their order. -/
def typed (hist : List (Console × Tty)) : List (Paper.Key (BitVec 16)) :=
  hist.reverse.flatMap fun call => call.2.writeQ.bytes.map (key call.2.termios.verase)

def written (screen : BitVec 32 → BitVec 16) (hist : List (Console × Tty)) : Paper (BitVec 16) :=
  (sheet screen).typeAll 80 blank (typed hist)

theorem written_cons (screen : BitVec 32 → BitVec 16) (hist : List (Console × Tty)) (c : Console) (tty : Tty) :
    written screen ((c, tty) :: hist) =
      (written screen hist).typeAll 80 blank (tty.writeQ.bytes.map (key tty.termios.verase)) := by
  simp only [written, typed, Paper.typeAll, List.reverse_cons, List.flatMap_append, List.flatMap_singleton,
    List.foldl_append]

theorem shows_initConsole (screen : BitVec 32 → BitVec 16) : (Console.boot screen).initConsole.Shows (sheet screen) :=
  ⟨(placed_initConsole screen).1, Nat.le_refl 9, Nat.zero_le 80, rfl, fun _ _ _ _ => rfl, ⟨rfl, rfl⟩⟩

theorem shows_of_run {screen : BitVec 32 → BitVec 16} {hist : List (Console × Tty)} {c : Console}
    (run : Run (session screen) hist c) (fits : (written screen hist).row < 204) :
    c.Shows (written screen hist) ∧ c.setCursor = c := by
  induction run with
  | init start =>
    rw [start]
    exact ⟨shows_initConsole screen, rfl⟩
  | @step hist c c' tty run taken ih =>
    rw [written_cons] at fits ⊢
    have inside : (written screen hist).column ≤ 80 := (Paper.typeAll_bounds (Nat.zero_le 80) (by decide) _).2
    -- the paper only grows, so it has fitted before
    have before : (written screen hist).row < 204 :=
      Nat.lt_of_le_of_lt (Paper.typeAll_bounds inside (by decide) _).1 fits
    obtain ⟨shows, _⟩ := ih before
    obtain rfl := taken
    rw [conWrite_eq]
    exact ⟨(shows.printAll tty.termios.verase tty.writeQ.bytes fits).setCursor, rfl⟩

/-- After any calls of `conWrite` the display shows the end of the paper on which all characters of
the queues have been typed, as long as it has no more rows than video memory. -/
theorem display_written {screen : BitVec 32 → BitVec 16} {hist : List (Console × Tty)} {c : Console}
    (run : Run (session screen) hist c) (fits : (written screen hist).row < 204) :
    c.shown = (written screen hist).picture 80 25 := by
  obtain ⟨shows, set⟩ := shows_of_run run fits
  rw [← set]
  exact shows.shown fits

/-- A terminal with a text waiting. -/
def greeting : Tty where
  termios := ⟨0, 0x7f⟩
  writeQ := ⟨4, 0, fun i => if i = 0 then 72 else if i = 1 then 105 else if i = 2 then 13 else 10, by decide,
    ttyBufSize_pos⟩

theorem display_written_greeting : (conWrite greeting (Console.boot fun _ => 0).initConsole).2.shown =
    (written (fun _ => 0) [((Console.boot fun _ => 0).initConsole, greeting)]).picture 80 25 :=
  display_written (.step (.init rfl) rfl) (by decide)

/-- The text stands in row 9, and the cursor under it. -/
example : (written (fun _ => 0) [((Console.boot fun _ => 0).initConsole, greeting)]).row = 10 ∧
    (written (fun _ => 0) [((Console.boot fun _ => 0).initConsole, greeting)]).cells 9 1 = 0x0F69 := by decide

end OperatorSystem.Chr
