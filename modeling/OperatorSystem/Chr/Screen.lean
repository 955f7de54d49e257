import OperatorSystem.Chr.Tty
import OperatorSystem.Library.Transition

/-!
# The cells the console stores

The column of the cursor depends on the text alone, and so does the number of
line advances: line feeds, and wraps past column 80. Both determine the cursor
and the window, because every advance either moves the cursor down or scrolls.
-/

namespace OperatorSystem.Chr

open OperatorSystem.Mm (Memory)

/-! ### The layout of a text -/

def advanceTab (x : Nat) : Nat × Nat :=
  let x := x + (8 - x % 8)
  if x > 80 then (x - 80, 1) else (x, 0)

/-- The column after a character in column `x`, and the line advances it makes. -/
def advance (x : Nat) (verase ch : BitVec 8) : Nat × Nat :=
  if ch.toInt > 31 ∧ ch.toInt < 127 then
    if x ≥ 80 then (x - 79, 1) else (x + 1, 0)
  else if ch = 27 then (x, 0)
  else if ch = 10 ∨ ch = 11 ∨ ch = 12 then (x, 1)
  else if ch = 13 then (0, 0)
  else if ch.toInt = verase.toNat then (x - 1, 0)
  else if ch = 8 then (x - 1, 0)
  else if ch = 9 then advanceTab x
  else (x, 0)

/-- The column and the line advances of a text, whose last character comes first. -/
def layout : List (BitVec 8 × BitVec 8) → Nat × Nat
  | [] => (0, 0)
  | (verase, ch) :: text =>
    let (x, n) := layout text
    let (x, more) := advance x verase ch
    (x, n + more)

def lineAdvances (text : List (BitVec 8 × BitVec 8)) : Nat := (layout text).2

/-! ### The cursor after `n` line advances -/

/-- All cells and the window lie in video memory. -/
structure Console.InVideo (c : Console) : Prop where
  cells : ∀ a ∈ c.stores, videoMemStart.toNat ≤ a.toNat ∧ a.toNat + 2 ≤ videoMemEnd.toNat
  window : videoMemStart ≤ c.origin ∧ c.origin ≤ c.scrEnd ∧ c.scrEnd ≤ videoMemEnd

/-- The console in column `x` after `n` line advances. The 195th of them is the
last that moves the cursor; it scrolls the window past the end of video memory. -/
structure Console.At (c : Console) (x n : Nat) : Prop where
  column : c.x.toNat = x
  row : c.y.toNat = 9 + min n 195
  bottom : c.bottom = 25
  pos : c.pos.toNat = 0xB8000 + 160 * (9 + min n 195) + 2 * x
  origin : c.origin.toNat = 0xB8000 + 160 * (min n 195 - 15)
  scrEnd : c.scrEnd.toNat = 0xB8000 + 160 * (10 + max 15 (min n 195))
  stores : ∀ a ∈ c.stores, 0xB8000 ≤ a.toNat ∧ a.toNat + 2 ≤ 0xB8000 + 160 * (10 + min n 195)

namespace Console

variable {c : Console} {x n : Nat}

theorem At.lf (place : c.At x n) (inside : x ≤ 88) : c.lf.At x (n + 1) := by
  obtain ⟨hx, hy, hbottom, hpos, horigin, hend, hstores⟩ := place
  have stores : ∀ a ∈ c.stores,
      0xB8000 ≤ a.toNat ∧ a.toNat + 2 ≤ 0xB8000 + 160 * (10 + min (n + 1) 195) := by
    intro a stored
    have := hstores a stored
    omega
  have next : (c.y + 1).toNat = 10 + min n 195 := by
    rw [BitVec.toNat_add, hy]
    change (9 + min n 195 + 1) % 4294967296 = _
    omega
  have row : (c.pos + videoSizeRow).toNat = 0xB8000 + 160 * (10 + min n 195) + 2 * x := by
    rw [BitVec.toNat_add, hpos]
    change (753664 + 160 * (9 + min n 195) + 2 * x + 160) % 4294967296 = _
    omega
  -- below row 25 the cursor moves; then the window does, as long as there is video memory
  rw [Console.lf]
  split
  next free =>
    rw [hbottom, BitVec.lt_def, next] at free
    change 10 + min n 195 < 25 at free
    constructor
    · exact hx
    · change (c.y + 1).toNat = _
      omega
    · exact hbottom
    · change (c.pos + videoSizeRow).toNat = _
      omega
    · change c.origin.toNat = _
      omega
    · change c.scrEnd.toNat = _
      omega
    · exact stores
  next last =>
    rw [hbottom, BitVec.lt_def, next] at last
    change ¬ 10 + min n 195 < 25 at last
    rw [scrollUp]
    split
    next room =>
      rw [BitVec.lt_def, hend] at room
      change _ < 786432 at room
      constructor
      · exact hx
      · change (c.y + 1).toNat = _
        omega
      · exact hbottom
      · change (c.pos + videoSizeRow).toNat = _
        omega
      · change (c.origin + videoSizeRow).toNat = _
        rw [BitVec.toNat_add, horigin]
        change (753664 + 160 * (min n 195 - 15) + 160) % 4294967296 = _
        omega
      · change (c.scrEnd + videoSizeRow).toNat = _
        rw [BitVec.toNat_add, hend]
        change (753664 + 160 * (10 + max 15 (min n 195)) + 160) % 4294967296 = _
        omega
      · exact stores
    next full =>
      rw [BitVec.lt_def, hend] at full
      change ¬ _ < 786432 at full
      constructor
      · exact hx
      · omega
      · exact hbottom
      · omega
      · omega
      · omega
      · exact stores

/-- The column and the position move together along the row. -/
theorem At.move (place : c.At x n) {x' : Nat} {a b : BitVec 32} (column : a.toNat = x')
    (position : b.toNat = 0xB8000 + 160 * (9 + min n 195) + 2 * x') :
    ({ c with x := a, pos := b } : Console).At x' n :=
  ⟨column, place.row, place.bottom, position, place.origin, place.scrEnd, place.stores⟩

theorem At.store (place : c.At x n) {a : BitVec 32} {x' : Nat} (inside : x' < 80)
    (here : a.toNat = 0xB8000 + 160 * (9 + min n 195) + 2 * x') (v : BitVec 16) :
    (c.store a v).At x n := by
  refine ⟨place.column, place.row, place.bottom, place.pos, place.origin, place.scrEnd, ?_⟩
  intro b stored
  rcases List.mem_cons.mp stored with rfl | old
  · omega
  · exact place.stores b old

theorem At.forward (place : c.At x n) {k : BitVec 32} (few : x + k.toNat ≤ 88) {d : BitVec 32}
    (twice : d.toNat = 2 * k.toNat) :
    ({ c with x := c.x + k, pos := c.pos + d } : Console).At (x + k.toNat) n := by
  apply place.move
  · rw [BitVec.toNat_add, place.column]
    exact Nat.mod_eq_of_lt (by omega)
  · rw [BitVec.toNat_add, place.pos, twice]
    rw [Nat.mod_eq_of_lt (by omega)]
    omega

theorem At.back (place : c.At x n) (few : x ≤ 88) (positive : c.x ≠ 0) :
    (c.pos - 2).toNat = 0xB8000 + 160 * (9 + min n 195) + 2 * (x - 1) ∧ 0 < x ∧
      ({ c with x := c.x - 1, pos := c.pos - 2 } : Console).At (x - 1) n := by
  have nonzero : 0 < x := by
    rw [← place.column]
    apply Nat.pos_of_ne_zero
    intro zero
    exact positive (BitVec.eq_of_toNat_eq zero)
  -- the cursor is not at the border, so both subtractions stay in range
  have position : (c.pos - 2).toNat = 0xB8000 + 160 * (9 + min n 195) + 2 * (x - 1) := by
    rw [BitVec.toNat_sub_of_le, place.pos]
    · change 753664 + 160 * (9 + min n 195) + 2 * x - 2 = _
      omega
    · rw [BitVec.le_def, place.pos]
      change 2 ≤ _
      omega
  refine ⟨position, nonzero, place.move ?_ position⟩
  rw [BitVec.toNat_sub_of_le, place.column]
  · rfl
  · rw [BitVec.le_def, place.column]
    exact nonzero

theorem At.wrap (place : c.At x n) (reached : 80 ≤ x) (inside : x ≤ 88) :
    c.wrap.At (x - 80) (n + 1) := by
  have moved : ({ c with x := c.x - videoNumColumns, pos := c.pos - videoSizeRow } : Console).At
      (x - 80) n := by
    apply place.move
    · rw [BitVec.toNat_sub_of_le, place.column]
      · rfl
      · rw [BitVec.le_def, place.column]
        exact reached
    · rw [BitVec.toNat_sub_of_le, place.pos]
      · change 753664 + 160 * (9 + min n 195) + 2 * x - 160 = _
        omega
      · rw [BitVec.le_def, place.pos]
        change 160 ≤ _
        omega
  exact moved.lf (by omega)

theorem At.cr (place : c.At x n) (inside : x ≤ 88) : c.cr.At 0 n := by
  apply place.move
  · rfl
  · have twice : (c.x * 2).toNat = 2 * x := by
      rw [BitVec.toNat_mul, place.column]
      change x * 2 % 4294967296 = _
      omega
    rw [BitVec.toNat_sub_of_le, place.pos, twice]
    · omega
    · rw [BitVec.le_def, place.pos, twice]
      omega

/-- A printable character, in a column that is left of the border. -/
theorem At.printable (place : c.At x n) (inside : x < 80) (v : BitVec 16) :
    ({ c.store c.pos v with x := c.x + 1, pos := c.pos + 2 } : Console).At (x + 1) n :=
  (place.store inside place.pos v).forward (k := 1) (d := 2) (by change x + 1 ≤ 88; omega) rfl

theorem At.del (place : c.At x n) (inside : x ≤ 80) : c.del.At (x - 1) n := by
  rw [Console.del]
  split
  next positive =>
    obtain ⟨position, nonzero, moved⟩ := place.back (by omega) positive
    exact moved.store (by omega) position _
  next border =>
    have start : x = 0 := by
      rw [← place.column, not_not.mp border]
      rfl
    subst start
    exact place

/-- A tab goes to the next multiple of 8, and past the last one to a new line. -/
theorem At.tab (place : c.At x n) (inside : x ≤ 80) :
    c.tab.At (advanceTab x).1 (n + (advanceTab x).2) ∧ (advanceTab x).1 ≤ 80 := by
  have low : (c.x &&& 7).toNat = x % 8 := by
    rw [BitVec.toNat_and, place.column]
    exact Nat.and_two_pow_sub_one_eq_mod x 3
  have step : (8 - (c.x &&& 7)).toNat = 8 - x % 8 := by
    rw [BitVec.toNat_sub_of_le, low]
    · rfl
    · rw [BitVec.le_def, low]
      change x % 8 ≤ 8
      omega
  have twice : ((8 - (c.x &&& 7)) <<< 1).toNat = 2 * (8 - (c.x &&& 7)).toNat := by
    rw [BitVec.toNat_shiftLeft, step, Nat.shiftLeft_eq]
    change (8 - x % 8) * 2 % 4294967296 = _
    omega
  have moved := place.forward (by rw [step]; omega) twice
  rw [step] at moved
  have border : c.x + (8 - (c.x &&& 7)) > videoNumColumns ↔ x + (8 - x % 8) > 80 := by
    rw [gt_iff_lt, BitVec.lt_def, moved.column]
    rfl
  rw [Console.tab, advanceTab]
  -- a tab that passes column 80 goes on in the next row
  by_cases past : x + (8 - x % 8) > 80
  · rw [if_pos (border.mpr past), if_pos past]
    exact ⟨moved.wrap (by omega) (by omega), by omega⟩
  · rw [if_neg (mt border.mp past), if_neg past]
    exact ⟨moved, by omega⟩

/-- What one character does, as its layout says. -/
theorem At.putChar (place : c.At x n) (inside : x ≤ 80) (verase ch : BitVec 8) :
    (c.putChar verase ch).At (advance x verase ch).1 (n + (advance x verase ch).2) ∧
      (advance x verase ch).1 ≤ 80 := by
  unfold Console.putChar advance
  -- one case for each branch of the source, in its order
  by_cases printable : ch.toInt > 31 ∧ ch.toInt < 127
  · simp only [printable, and_self, if_true]
    have border : c.x ≥ videoNumColumns ↔ x ≥ 80 := by
      rw [ge_iff_le, BitVec.le_def, place.column]
      rfl
    by_cases full : x ≥ 80
    · rw [if_pos (border.mpr full), if_pos full]
      have wrapped := (place.wrap full (by omega)).printable (by omega) (c.wrap.attr ||| ch.setWidth 16)
      have column : x - 80 + 1 = x - 79 := by omega
      exact ⟨column ▸ wrapped, by omega⟩
    · rw [if_neg (mt border.mp full), if_neg full]
      exact ⟨place.printable (by omega) _, by omega⟩
  rw [if_neg printable, if_neg printable]
  by_cases escape : ch = 27
  · rw [if_pos escape, if_pos escape]
    exact ⟨place, inside⟩
  rw [if_neg escape, if_neg escape]
  by_cases feed : ch = 10 ∨ ch = 11 ∨ ch = 12
  · rw [if_pos feed, if_pos feed]
    exact ⟨place.lf (by omega), inside⟩
  rw [if_neg feed, if_neg feed]
  by_cases carriage : ch = 13
  · rw [if_pos carriage, if_pos carriage]
    exact ⟨place.cr (by omega), by omega⟩
  rw [if_neg carriage, if_neg carriage]
  by_cases erase : ch.toInt = verase.toNat
  · rw [if_pos erase, if_pos erase]
    exact ⟨place.del inside, by omega⟩
  rw [if_neg erase, if_neg erase]
  by_cases backspace : ch = 8
  · rw [if_pos backspace, if_pos backspace]
    split
    next positive => exact ⟨(place.back (by omega) positive).2.2, by omega⟩
    next border =>
      have start : x = 0 := by
        rw [← place.column, not_not.mp border]
        rfl
      subst start
      exact ⟨place, inside⟩
  rw [if_neg backspace, if_neg backspace]
  by_cases tab : ch = 9
  · rw [if_pos tab, if_pos tab]
    exact place.tab inside
  rw [if_neg tab, if_neg tab]
  exact ⟨place, inside⟩

/-- The console is where the text printed so far has brought it. -/
def Placed (c : Console) : Prop :=
  c.At (layout c.printed).1 (lineAdvances c.printed) ∧ (layout c.printed).1 ≤ 80

theorem Placed.print (placed : c.Placed) (verase ch : BitVec 8) : (c.print verase ch).Placed := by
  obtain ⟨place, inside⟩ := placed
  obtain ⟨next, inside'⟩ := place.putChar inside verase ch
  exact ⟨⟨next.column, next.row, next.bottom, next.pos, next.origin, next.scrEnd, next.stores⟩, inside'⟩

theorem Placed.setCursor (placed : c.Placed) : c.setCursor.Placed := by
  obtain ⟨⟨column, row, bottom, pos, origin, scrEnd, stores⟩, inside⟩ := placed
  exact ⟨⟨column, row, bottom, pos, origin, scrEnd, stores⟩, inside⟩

theorem placed_initConsole (screen : BitVec 32 → BitVec 16) : (boot screen).initConsole.Placed := by
  constructor
  · constructor <;> try rfl
    intro a none
    cases none
  · exact Nat.zero_le 80

/-- The first 194 line advances stay in video memory, the next one leaves it. -/
theorem Placed.cursor_iff (placed : c.Placed) : c.InVideo ↔ lineAdvances c.printed < 195 := by
  obtain ⟨place, _⟩ := placed
  have origin := place.origin
  have scrEnd := place.scrEnd
  constructor
  · intro video
    have window := video.window.2.2
    rw [BitVec.le_def, scrEnd] at window
    change _ ≤ 786432 at window
    omega
  · intro few
    constructor
    · intro a stored
      have := place.stores a stored
      change 753664 ≤ a.toNat ∧ a.toNat + 2 ≤ 786432
      omega
    · rw [BitVec.le_def, BitVec.le_def, BitVec.le_def, origin, scrEnd]
      change 753664 ≤ _ ∧ _ ∧ _ ≤ 786432
      omega

end Console

/-! ### Whole calls -/

theorem placed_conWriteLoop (nr : Nat) (tty : Tty) {c : Console} (placed : c.Placed) :
    (conWriteLoop nr tty c).2.Placed := by
  induction nr generalizing tty c with
  | zero => exact placed
  | succ nr ih => exact ih _ (placed.print _ _)

theorem placed_conWrite (tty : Tty) {c : Console} (placed : c.Placed) : (conWrite tty c).2.Placed := by
  have loop : ∀ nr, ((conWriteLoop nr tty c).map id Console.setCursor).2.Placed := by
    intro nr
    rw [Prod.map_snd]
    exact (placed_conWriteLoop nr tty placed).setCursor
  rw [conWrite]
  exact loop tty.writeQ.waiting

theorem placed_flush (channel : Nat) (tty : Tty) {c : Console} (placed : c.Placed) :
    (flush channel tty c).2.Placed := by
  rw [flush]
  split
  · exact placed_conWrite tty placed
  · exact placed

theorem placed_ttyWriteLoop {channel fuel : Nat} {m : Memory} {c c' : Console} {w w' : Writing}
    (placed : c.Placed) (done : ttyWriteLoop channel fuel m c w = some (w', c')) : c'.Placed := by
  induction fuel generalizing c w with
  | zero => cases done
  | succ fuel ih =>
    rw [ttyWriteLoop] at done
    split at done
    next more =>
      obtain ⟨w₁, _, rest⟩ := Option.bind_eq_some_iff.mp done
      exact ih (placed_flush channel w₁.tty placed) rest
    next =>
      obtain ⟨rfl, rfl⟩ := Prod.mk.inj (Option.some.inj done)
      exact placed

namespace Terminals

inductive Action
  | ttyWrite (m : Memory) (channel : Nat) (buf nr : BitVec 32)
  | conWrite (tty : Tty)

inductive Step : Terminals → Action → Terminals → Prop
  | ttyWrite {t : Terminals} {m : Memory} {channel : Nat} {buf nr : BitVec 32} {r : WriteResult}
      (done : Chr.ttyWrite m t channel buf nr = some r) :
      Step t (.ttyWrite m channel buf nr) r.terminals
  | conWrite {t : Terminals} {tty : Tty} :
      Step t (.conWrite tty) { t with console := (Chr.conWrite tty t.console).2 }

def system : Transition.System Terminals Action where
  init t := ∃ screen, t.console = (Console.boot screen).initConsole
  step := Step

theorem placed_of_run {hist : List (Terminals × Action)} {t : Terminals}
    (run : Transition.Run system hist t) : t.console.Placed := by
  apply Transition.Reachable.invariant (S := system) (I := fun t => t.console.Placed) _ _ ⟨hist, run⟩
  · rintro t ⟨screen, start⟩
    rw [start]
    exact Console.placed_initConsole screen
  · intro t a t' placed taken
    cases taken with
    | ttyWrite done =>
      obtain ⟨⟨w, c⟩, loop, result⟩ := Option.bind_eq_some_iff.mp done
      obtain rfl := Option.some.inj result
      exact placed_ttyWriteLoop placed loop
    | conWrite => exact placed_conWrite _ placed

/-- In every run of calls the stored cells and the window are in video memory
as long as the text has made fewer than 195 line advances, and not after. -/
theorem inVideo_iff {hist : List (Terminals × Action)} {t : Terminals}
    (run : Transition.Run system hist t) :
    t.console.InVideo ↔ lineAdvances t.console.printed < 195 :=
  (placed_of_run run).cursor_iff

/-! ### A long text -/

/-- A terminal with 195 line feeds waiting. -/
def lineFeeds : Tty where
  termios := ⟨0, 0x7f⟩
  writeQ := ⟨195, 0, fun _ => 10, by decide, ttyBufSize_pos⟩

theorem inVideo_lost : ∃ t', Transition.Run system [(initialTerminals, .conWrite lineFeeds)] t' ∧
    ¬ t'.console.InVideo := by
  have run : Transition.Run system [(initialTerminals, .conWrite lineFeeds)] _ :=
    .step (.init ⟨_, rfl⟩) .conWrite
  refine ⟨_, run, ?_⟩
  rw [(placed_of_run run).cursor_iff]
  decide +kernel

/-- A terminal with 200 characters waiting, a letter and a line feed in turn. -/
def letterFeeds : Tty where
  termios := ⟨0, 0x7f⟩
  writeQ := ⟨200, 0, fun i => if i % 2 = 0 then 65 else 10, by decide, ttyBufSize_pos⟩

/-- The first 100 letters fit into video memory, the second 100 do not. -/
theorem inVideo_iff_twice : ∃ t₁ t₂, Transition.Run system [(t₁, .conWrite letterFeeds),
      (initialTerminals, .conWrite letterFeeds)] t₂ ∧
    t₁.console.stores.length = 100 ∧ t₁.console.InVideo ∧ ¬ t₂.console.InVideo := by
  have once : Transition.Run system [(initialTerminals, .conWrite letterFeeds)] _ :=
    .step (.init ⟨_, rfl⟩) .conWrite
  have again : ∀ t, Step t (.conWrite letterFeeds) _ := fun _ => .conWrite
  have twice := once.step (again _)
  refine ⟨_, _, twice, by decide +kernel, (inVideo_iff once).mpr (by decide +kernel), ?_⟩
  rw [inVideo_iff twice]
  decide +kernel

end Terminals

end OperatorSystem.Chr
