import Mathlib.Logic.Function.Basic
import Mathlib.Tactic.Simps.Basic

/-!
# The machine in real mode

The registers and the memory that the 16-bit code of `setup.asm` uses. The
segment registers `cs`, `ds` and `ss` have the segment of `setup` itself, and
`gs` the segment of the screen. Every stored byte is recorded, so that results
can say where a routine writes and not only what differs afterwards.
-/

namespace OperatorSystem.Boot

def setupSeg : Nat := 0x9000
def screenSeg : Nat := 0xB800

/-- The physical address of an offset in a segment. -/
def phys (seg off : Nat) : Nat := 16 * seg + off

/-- The registers are below `2^16`; `stores` are the addresses of all bytes stored so far. -/
structure Cpu where
  ax : Nat
  bx : Nat
  cx : Nat
  dx : Nat
  si : Nat
  di : Nat
  bp : Nat
  sp : Nat
  es : Nat
  mem : Nat → BitVec 8
  stores : List Nat

/-- The bytes of the sectors of the floppy disk. -/
def Disk := Nat → Nat → BitVec 8

/-- The low and the high byte of a register. -/
def low (w : Nat) : Nat := w % 256
def high (w : Nat) : Nat := w / 256 % 256

def withLow (w v : Nat) : Nat := w / 256 * 256 + v
def withHigh (w v : Nat) : Nat := 256 * v + w % 256

section Halves

variable {w v r q : Nat}

theorem low_pack (small : q < 256) : low (256 * r + q) = q := by
  unfold low
  omega

theorem high_pack (small : q < 256) (byte : r < 256) : high (256 * r + q) = r := by
  unfold high
  omega

theorem high_withLow (small : v < 256) : high (withLow w v) = high w := by
  unfold high withLow
  have upper : (w / 256 * 256 + v) / 256 = w / 256 := by omega
  rw [upper]

theorem low_withLow (small : v < 256) : low (withLow w v) = v := by
  unfold low withLow
  omega

theorem high_withHigh (small : v < 256) : high (withHigh w v) = v :=
  high_pack (Nat.mod_lt _ (by decide)) small

theorem low_withHigh : low (withHigh w v) = low w := low_pack (Nat.mod_lt _ (by decide))

theorem low_lt (w : Nat) : low w < 256 := Nat.mod_lt _ (by decide)

end Halves

namespace Cpu

@[simps -fullyApplied] def setAx (s : Cpu) (v : Nat) : Cpu := { s with ax := v }
@[simps -fullyApplied] def setBx (s : Cpu) (v : Nat) : Cpu := { s with bx := v }
@[simps -fullyApplied] def setCx (s : Cpu) (v : Nat) : Cpu := { s with cx := v }
@[simps -fullyApplied] def setDx (s : Cpu) (v : Nat) : Cpu := { s with dx := v }
@[simps -fullyApplied] def setSi (s : Cpu) (v : Nat) : Cpu := { s with si := v }
@[simps -fullyApplied] def setDi (s : Cpu) (v : Nat) : Cpu := { s with di := v }
@[simps -fullyApplied] def setBp (s : Cpu) (v : Nat) : Cpu := { s with bp := v }
@[simps -fullyApplied] def setSp (s : Cpu) (v : Nat) : Cpu := { s with sp := v }
@[simps -fullyApplied] def setEs (s : Cpu) (v : Nat) : Cpu := { s with es := v }

@[simps -fullyApplied] def store (s : Cpu) (a : Nat) (v : BitVec 8) : Cpu :=
  { s with mem := Function.update s.mem a v, stores := a :: s.stores }

def storeWord (s : Cpu) (a w : Nat) : Cpu := (s.store a (BitVec.ofNat 8 w)).store (a + 1) (BitVec.ofNat 8 (w / 256))

def word (s : Cpu) (a : Nat) : Nat := (s.mem a).toNat + 256 * (s.mem (a + 1)).toNat

def push (s : Cpu) (w : Nat) : Cpu :=
  let sp := (s.sp + 0xFFFE) % 0x10000
  (s.setSp sp).storeWord (phys setupSeg sp) w

/-- The word on top of the stack, and the stack without it. -/
def top (s : Cpu) : Nat := s.word (phys setupSeg s.sp)
@[simps -fullyApplied] def drop (s : Cpu) : Cpu := { s with sp := (s.sp + 2) % 0x10000 }

/-- `div` by a byte and by a word; `none` stands for a divide error. -/
def divByte (s : Cpu) (v : Nat) : Option Cpu :=
  if v = 0 ∨ 256 ≤ s.ax / v then none else some (s.setAx (256 * (s.ax % v) + s.ax / v))

def divWord (s : Cpu) (v : Nat) : Option Cpu :=
  let n := 0x10000 * s.dx + s.ax
  if v = 0 ∨ 0x10000 ≤ n / v then none else some ((s.setAx (n / v)).setDx (n % v))

def mulWord (s : Cpu) (v : Nat) : Cpu := (s.setAx (s.ax * v % 0x10000)).setDx (s.ax * v / 0x10000)

/-- Function 2 of `int 13H` on a disk with 2 heads and 18 sectors in a track:
`al` sectors go to `es:bx`. The read succeeds. -/
def int13 (d : Disk) (s : Cpu) : Cpu :=
  let cylinder := high s.cx + 256 * (low s.cx / 64)
  let sector := (cylinder * 2 + high s.dx) * 18 + (low s.cx % 64 - 1)
  let start := phys s.es s.bx
  let size := 512 * low s.ax
  { s with
    ax := low s.ax
    mem := fun a =>
      if start ≤ a ∧ a < start + size then d (sector + (a - start) / 512) ((a - start) % 512) else s.mem a
    stores := (List.range size).map (start + ·) ++ s.stores }

/-! ### Where a routine writes -/

/-- From `s` to `s'` only bytes of the area are stored. -/
structure Writes (area : Nat → Prop) (s s' : Cpu) : Prop where
  kept : ∀ a, ¬ area a → s'.mem a = s.mem a
  logged : ∀ a ∈ s'.stores, a ∈ s.stores ∨ area a
  grows : ∀ a ∈ s.stores, a ∈ s'.stores

namespace Writes

variable {area area' : Nat → Prop} {s s' s'' : Cpu}

theorem none (mem : s'.mem = s.mem) (stores : s'.stores = s.stores) : Writes area s s' where
  kept a _ := by rw [mem]
  logged a old := by rw [stores] at old; exact .inl old
  grows a old := by rw [stores]; exact old

theorem trans (first : Writes area s s') (second : Writes area s' s'') : Writes area s s'' where
  kept a outside := (second.kept a outside).trans (first.kept a outside)
  logged a stored := by
    rcases second.logged a stored with earlier | inside
    · exact first.logged a earlier
    · exact .inr inside
  grows a old := second.grows a (first.grows a old)

theorem mono (writes : Writes area s s') (wider : ∀ a, area a → area' a) : Writes area' s s' where
  kept a outside := writes.kept a fun inside => outside (wider a inside)
  logged a stored := (writes.logged a stored).imp_right (wider a)
  grows := writes.grows

theorem word (writes : Writes area s s') {a : Nat} (first : ¬ area a) (second : ¬ area (a + 1)) :
    s'.word a = s.word a := by
  rw [Cpu.word, Cpu.word, writes.kept a first, writes.kept _ second]

end Writes

section Stack

variable {s : Cpu} {area : Nat → Prop} {a w : Nat}

theorem store_writes (s : Cpu) (a : Nat) (v : BitVec 8) : Writes (fun x => x = a) s (s.store a v) where
  kept x other := by rw [store_mem, Function.update_of_ne other]
  logged x stored := (List.mem_cons.mp stored).symm
  grows x old := List.mem_cons_of_mem _ old

theorem storeWord_writes (s : Cpu) (a w : Nat) : Writes (fun x => x = a ∨ x = a + 1) s (s.storeWord a w) :=
  ((store_writes s a _).mono fun _ => Or.inl).trans ((store_writes _ (a + 1) _).mono fun _ => Or.inr)

theorem word_storeWord (small : w < 0x10000) : (s.storeWord a w).word a = w := by
  have first : (s.storeWord a w).mem a = BitVec.ofNat 8 w := by
    rw [storeWord, store_mem, Function.update_of_ne (by omega), store_mem, Function.update_self]
  have second : (s.storeWord a w).mem (a + 1) = BitVec.ofNat 8 (w / 256) := by
    rw [storeWord, store_mem, Function.update_self]
  rw [word, first, second, BitVec.toNat_ofNat, BitVec.toNat_ofNat]
  omega

/-- The registers other than `sp` stay, and the word is on top of the stack. -/
structure Pushed (s : Cpu) (w : Nat) (s' : Cpu) : Prop where
  ax : s'.ax = s.ax
  bx : s'.bx = s.bx
  cx : s'.cx = s.cx
  dx : s'.dx = s.dx
  si : s'.si = s.si
  di : s'.di = s.di
  bp : s'.bp = s.bp
  es : s'.es = s.es
  sp : s'.sp = s.sp - 2
  top : s'.word (phys setupSeg s'.sp) = w
  writes : Writes (fun a => phys setupSeg (s.sp - 2) ≤ a ∧ a < phys setupSeg s.sp) s s'

theorem push_spec (room : 2 ≤ s.sp) (inside : s.sp < 0x10000) (small : w < 0x10000) : Pushed s w (s.push w) := by
  have sp : (s.sp + 0xFFFE) % 0x10000 = s.sp - 2 := by omega
  simp only [push, sp]
  refine ⟨rfl, rfl, rfl, rfl, rfl, rfl, rfl, rfl, rfl, word_storeWord small, ?_⟩
  have same : Writes (fun a => phys setupSeg (s.sp - 2) ≤ a ∧ a < phys setupSeg s.sp) s (s.setSp (s.sp - 2)) :=
    .none rfl rfl
  refine same.trans ((storeWord_writes (s.setSp (s.sp - 2)) _ w).mono ?_)
  intro a stored
  simp only [phys] at stored ⊢
  omega

theorem int13_writes (d : Disk) (s : Cpu) :
    Writes (fun a => phys s.es s.bx ≤ a ∧ a < phys s.es s.bx + 512 * low s.ax) s (s.int13 d) where
  kept a outside := if_neg outside
  logged a stored := by
    rcases List.mem_append.mp stored with new | old
    · obtain ⟨i, range, rfl⟩ := List.mem_map.mp new
      have bound := List.mem_range.mp range
      exact .inr ⟨Nat.le_add_right _ _, Nat.add_lt_add_left bound _⟩
    · exact .inl old
  grows a old := List.mem_append_right _ old

end Stack

end Cpu

end OperatorSystem.Boot
