import OperatorSystem.Blk.Harddisk

/-!
# The string transfers (`klib.asm`)

`rep insw` stores through `edi` and `rep outsw` loads through `esi`; both move
their register. The C caller expects `ebx`, `esi`, `edi` and `ebp` back as they
were. `portWrite` loads its buffer into `edi`.
-/

namespace OperatorSystem.Blk

/-- The registers of a call, the memory, the words that come in on a port, and
the words that went out, each with its port. -/
structure Regs where
  ebx : BitVec 32
  ecx : BitVec 32
  edx : BitVec 32
  esi : BitVec 32
  edi : BitVec 32
  ebp : BitVec 32
  esp : BitVec 32
  mem : BitVec 32 → BitVec 8
  input : BitVec 16 → Nat → BitVec 16
  reads : Nat
  out : List (BitVec 16 × BitVec 16)

section Words

variable {A : Type} [Add A] [OfNat A 1] [OfNat A 2]

/-- The word at an address, the low byte first. -/
def wordAt (mem : A → BitVec 8) (a : A) : BitVec 16 :=
  (mem (a + 1)).setWidth 16 <<< 8 ||| (mem a).setWidth 16

def storeWord [DecidableEq A] (mem : A → BitVec 8) (a : A) (w : BitVec 16) : A → BitVec 8 :=
  Function.update (Function.update mem a (w.setWidth 8)) (a + 1) ((w >>> 8).setWidth 8)

/-- The words from an address on. -/
def words (mem : A → BitVec 8) (a : A) : Nat → List (BitVec 16)
  | 0 => []
  | n + 1 => wordAt mem a :: words mem (a + 2) n

/-- The words are stored one behind the other. -/
def storeWords [DecidableEq A] (mem : A → BitVec 8) (a : A) : List (BitVec 16) → A → BitVec 8
  | [] => mem
  | w :: ws => storeWords (storeWord mem a w) (a + 2) ws

theorem length_words (mem : A → BitVec 8) (a : A) (n : Nat) : (words mem a n).length = n := by
  induction n generalizing a with
  | zero => rfl
  | succ n ih => simp [words, ih]

end Words

namespace Regs

/-- `[ss:esp+4*k]`: the return address and the arguments of a call. -/
def stack (s : Regs) (k : Nat) : BitVec 32 :=
  let a := s.esp + 4 * BitVec.ofNat 32 k
  (s.mem (a + 3)).setWidth 32 <<< 24 ||| (s.mem (a + 2)).setWidth 32 <<< 16 |||
    (s.mem (a + 1)).setWidth 32 <<< 8 ||| (s.mem a).setWidth 32

def port (s : Regs) : BitVec 16 := (s.stack 1).setWidth 16
def buf (s : Regs) : BitVec 32 := s.stack 2
def nr (s : Regs) : BitVec 32 := s.stack 3

/-- `insw`, with the direction flag clear. -/
def insw (s : Regs) : Regs :=
  { s with
    mem := storeWord s.mem s.edi (s.input (s.edx.setWidth 16) s.reads)
    edi := s.edi + 2
    reads := s.reads + 1 }

/-- `outsw`, with the direction flag clear. -/
def outsw (s : Regs) : Regs :=
  { s with
    out := s.out ++ [(s.edx.setWidth 16, wordAt s.mem s.esi)]
    esi := s.esi + 2 }

/-- `rep`: the instruction is repeated as often as `ecx` says. -/
def rep (instruction : Regs → Regs) (s : Regs) : Regs := { instruction^[s.ecx.toNat] s with ecx := 0 }

/-- `mov edx, [ss:esp+4]`, `mov edi, [ss:esp+8]`, `mov ecx, [ss:esp+12]` -/
def loadArguments (s : Regs) : Regs := { s with edx := s.stack 1, edi := s.stack 2, ecx := s.stack 3 }

def portRead (s : Regs) : Regs := rep insw s.loadArguments

def portWrite (s : Regs) : Regs := rep outsw s.loadArguments

/-- The registers that a C function leaves as its caller has them. -/
structure Saved (s s' : Regs) : Prop where
  ebx : s'.ebx = s.ebx
  esi : s'.esi = s.esi
  edi : s'.edi = s.edi
  ebp : s'.ebp = s.ebp

/-- A call of `portWrite` sends the words of its buffer. -/
structure Sends (s : Regs) : Prop where
  out : s.portWrite.out = s.out ++ (words s.mem s.buf s.nr.toNat).map fun w => (s.port, w)
  mem : s.portWrite.mem = s.mem
  saved : Saved s s.portWrite

/-- A call of `portRead` stores the words that come in, in its buffer. -/
structure Receives (s : Regs) : Prop where
  mem : s.portRead.mem =
    storeWords s.mem s.buf ((List.range s.nr.toNat).map fun i => s.input s.port (s.reads + i))
  out : s.portRead.out = s.out
  saved : Saved s s.portRead

section Repeat

variable {s : Regs}

theorem step_two (a : BitVec 32) (n : Nat) :
    a + 2 + BitVec.ofNat 32 (2 * n) = a + BitVec.ofNat 32 (2 * (n + 1)) := by
  rw [Nat.mul_add, BitVec.add_assoc, BitVec.ofNat_add, BitVec.add_comm 2]
  rfl

theorem insw_iterate (n : Nat) (s : Regs) : insw^[n] s = { s with
    mem := storeWords s.mem s.edi ((List.range n).map fun i => s.input (s.edx.setWidth 16) (s.reads + i))
    edi := s.edi + BitVec.ofNat 32 (2 * n)
    reads := s.reads + n } := by
  induction n generalizing s with
  | zero => simp [storeWords]
  | succ n ih =>
    have later : ∀ i, s.reads + 1 + i = s.reads + (i + 1) := fun i => by omega
    rw [Function.iterate_succ_apply, ih, List.range_succ_eq_map]
    simp only [insw, step_two, later, List.map_cons, List.map_map, storeWords]
    rfl

theorem outsw_iterate (n : Nat) (s : Regs) : outsw^[n] s = { s with
    out := s.out ++ (words s.mem s.esi n).map fun w => (s.edx.setWidth 16, w)
    esi := s.esi + BitVec.ofNat 32 (2 * n) } := by
  induction n generalizing s with
  | zero => simp [words]
  | succ n ih =>
    rw [Function.iterate_succ_apply, ih]
    simp only [outsw, step_two, words, List.map_cons, List.append_assoc, List.singleton_append]

theorem double (n : BitVec 32) : BitVec.ofNat 32 (2 * n.toNat) = 2 * n := by
  rw [BitVec.ofNat_mul, BitVec.ofNat_toNat, BitVec.setWidth_eq]
  rfl

/-- What a call of `portRead` does. -/
theorem portRead_eq (s : Regs) : s.portRead = { s with
    mem := storeWords s.mem s.buf ((List.range s.nr.toNat).map fun i => s.input s.port (s.reads + i))
    edi := s.buf + 2 * s.nr
    reads := s.reads + s.nr.toNat
    edx := s.stack 1
    ecx := 0 } := by
  simp only [portRead, rep, insw_iterate]
  rw [← double]
  rfl

/-- What a call of `portWrite` does: the words come from `esi`. -/
theorem portWrite_eq (s : Regs) : s.portWrite = { s with
    out := s.out ++ (words s.mem s.esi s.nr.toNat).map fun w => (s.port, w)
    esi := s.esi + 2 * s.nr
    edi := s.buf
    edx := s.stack 1
    ecx := 0 } := by
  simp only [portWrite, rep, outsw_iterate]
  rw [← double]
  rfl

/-- A call of `portRead` is right exactly if `edi` happens to be at the end of the buffer. -/
theorem receives_iff (s : Regs) : s.Receives ↔ s.edi = s.buf + 2 * s.nr := by
  have done := portRead_eq s
  constructor
  · intro right
    have saved := right.saved.edi
    rw [done] at saved
    exact saved.symm
  · intro same
    refine ⟨?_, ?_, ?_, ?_, ?_, ?_⟩ <;> rw [done]
    exact same.symm

theorem map_port_inj (port : BitVec 16) {ws vs : List (BitVec 16)} :
    (ws.map fun w => (port, w)) = vs.map (fun w => (port, w)) ↔ ws = vs :=
  List.map_inj_right fun _ _ same => (Prod.mk.inj same).2

/-- A call of `portWrite` is right exactly if the words at `esi` are those of
the buffer, `edi` has the address of the buffer already, and `esi` comes back
to where it was. -/
theorem sends_iff (s : Regs) : s.Sends ↔
    words s.mem s.esi s.nr.toNat = words s.mem s.buf s.nr.toNat ∧ s.edi = s.buf ∧ 2 * s.nr = 0 := by
  have done := portWrite_eq s
  have esi : s.portWrite.esi = s.esi ↔ 2 * s.nr = 0 := by
    rw [done]
    exact BitVec.add_right_eq_self
  have out : s.portWrite.out = s.out ++ (words s.mem s.buf s.nr.toNat).map (fun w => (s.port, w)) ↔
      words s.mem s.esi s.nr.toNat = words s.mem s.buf s.nr.toNat := by
    rw [done, List.append_cancel_left_eq, map_port_inj]
  constructor
  · intro right
    have edi := right.saved.edi
    rw [done] at edi
    exact ⟨out.mp right.out, edi.symm, esi.mp right.saved.esi⟩
  · rintro ⟨words, edi, whole⟩
    refine ⟨out.mpr words, by rw [done], ?_, esi.mpr whole, ?_, ?_⟩ <;> rw [done]
    exact edi.symm

end Repeat

end Regs

end OperatorSystem.Blk
