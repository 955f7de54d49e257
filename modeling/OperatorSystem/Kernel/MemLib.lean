import OperatorSystem.Boot.FlatMemory

/-!
# Copying and measuring memory (`memlib.asm`)

`memcpy` and `strlen` are written in assembly: they keep the registers of their
caller on the stack, in the same memory that they copy. The module follows them
instruction by instruction, on flat segments.
-/

namespace OperatorSystem.Kernel

open OperatorSystem.Boot (Memory)
open OperatorSystem.Boot.Memory (Within repMovsb storeDword_other dword_storeDword dword_congr)

/-- The registers that the functions use, and memory. -/
structure MemLib where
  eax : BitVec 32
  ecx : BitVec 32
  esi : BitVec 32
  edi : BitVec 32
  ebp : BitVec 32
  esp : BitVec 32
  eip : BitVec 32
  mem : Memory

namespace MemLib

/-! ### The instructions -/

def push (v : BitVec 32) (s : MemLib) : MemLib :=
  { s with esp := s.esp - 4, mem := s.mem.storeDword (s.esp - 4) v }

/-- The word on top of the stack. -/
def top (s : MemLib) : BitVec 32 := s.mem.dword s.esp

/-- `push ebp`, `mov ebp, esp` -/
def enter (s : MemLib) : MemLib :=
  let s := s.push s.ebp
  { s with ebp := s.esp }

/-- `mov esp, ebp`, `pop ebp`, `ret` -/
def leave (s : MemLib) : MemLib :=
  let s := { s with esp := s.ebp }
  let s := { s with ebp := s.top, esp := s.esp + 4 }
  { s with eip := s.top, esp := s.esp + 4 }

/-- `[ebp + n]` -/
def arg (s : MemLib) (n : BitVec 32) : BitVec 32 := s.mem.dword (s.ebp + n)

/-- `rep movsb` after `cld` -/
def movsb (s : MemLib) : MemLib :=
  { s with
    mem := repMovsb s.ecx.toNat s.edi s.esi s.mem
    edi := s.edi + s.ecx
    esi := s.esi + s.ecx
    ecx := 0 }

/-! ### The functions -/

def memcpy (s : MemLib) : MemLib :=
  let s := s.enter
  let s := s.push s.esi
  let s := s.push s.edi
  let s := s.push s.ecx
  let s := { s with edi := s.arg 8 }
  let s := { s with esi := s.arg 12 }
  let s := { s with ecx := s.arg 16 }
  let s := s.movsb
  let s := { s with eax := s.arg 8 }
  let s := { s with ecx := s.top, esp := s.esp + 4 }
  let s := { s with edi := s.top, esp := s.esp + 4 }
  let s := { s with esi := s.top, esp := s.esp + 4 }
  s.leave

/-- `STR_LEN_LOOP`, for as many rounds as `fuel` allows. -/
def strLenLoop : Nat → MemLib → Option MemLib
  | 0, _ => none
  | fuel + 1, s =>
    if s.mem s.esi = 0 then some s else strLenLoop fuel { s with esi := s.esi + 1, eax := s.eax + 1 }

def strlen (fuel : Nat) (s : MemLib) : Option MemLib := do
  let s := s.enter
  let s := s.push s.esi
  let s := { s with esi := s.arg 8 }
  let s := { s with eax := 0 }
  let s ← strLenLoop fuel s
  let s := { s with esi := s.top, esp := s.esp + 4 }
  return s.leave

/-! ### Words -/

variable {m m' : Memory} {a b v : BitVec 32}

/-- Two words that do not overlap. -/
theorem dword_storeDword_other (before : 4 ≤ (b - a).toNat) (behind : 4 ≤ (a - b).toNat) :
    (m.storeDword a v).dword b = m.dword b := by
  apply dword_congr
  intro c inside
  apply storeDword_other
  unfold Within at *
  bv_omega

theorem next_place (x : BitVec 32) (n : Nat) : x + 1 + BitVec.ofNat 32 n = x + BitVec.ofNat 32 (n + 1) := by
  rw [BitVec.ofNat_add]
  bv_omega

/-! ### The loops -/

/-- One more byte at the end. -/
theorem repMovsb_succ (n : Nat) (edi esi : BitVec 32) (m : Memory) : repMovsb (n + 1) edi esi m =
    Function.update (repMovsb n edi esi m) (edi + BitVec.ofNat 32 n)
      (repMovsb n edi esi m (esi + BitVec.ofNat 32 n)) := by
  induction n generalizing edi esi m with
  | zero => simp [repMovsb]
  | succ n ih =>
    rw [repMovsb, ih, next_place, next_place]
    rfl

/-- The bytes go up one by one, so a byte that has arrived in the source is copied again: what lies
in front of the destination is repeated. -/
theorem repMovsb_forward (n : Nat) (fits : n ≤ 2 ^ 32) (edi esi : BitVec 32) (m : Memory) (a : BitVec 32) :
    repMovsb n edi esi m a =
      if Within edi n a then m (esi + BitVec.ofNat 32 ((a - edi).toNat % (edi - esi).toNat)) else m a := by
  induction n generalizing a with
  | zero => rw [repMovsb, if_neg (show ¬ Within edi 0 a from Nat.not_lt_zero _)]
  | succ n ih =>
    have small : n < 2 ^ 32 := fits
    rw [repMovsb_succ]
    by_cases last : a = edi + BitVec.ofNat 32 n
    · -- the last byte comes from memory as the others have left it
      have offset : (a - edi).toNat = n := by
        rw [last, BitVec.add_comm, BitVec.add_sub_cancel, BitVec.toNat_ofNat, Nat.mod_eq_of_lt small]
      have inside : Within edi (n + 1) a := by
        rw [Within, offset]
        exact Nat.lt_succ_self n
      have around : (esi + BitVec.ofNat 32 n - edi).toNat + (edi - esi).toNat = n ∨
          (esi + BitVec.ofNat 32 n - edi).toNat + (edi - esi).toNat = n + 2 ^ 32 := by
        bv_omega
      rw [if_pos inside, offset, last, Function.update_self, ih (Nat.le_of_lt small)]
      by_cases arrived : Within edi n (esi + BitVec.ofNat 32 n)
      · rw [if_pos arrived]
        rw [Within] at arrived
        have back : n = (esi + BitVec.ofNat 32 n - edi).toNat + (edi - esi).toNat := by omega
        have repeated : n % (edi - esi).toNat =
            (esi + BitVec.ofNat 32 n - edi).toNat % (edi - esi).toNat := by
          conv_lhs => rw [back]
          exact Nat.add_mod_right _ _
        rw [repeated]
      · rw [if_neg arrived]
        rw [Within] at arrived
        have first : n % (edi - esi).toNat = n := by
          by_cases same : (edi - esi).toNat = 0
          · rw [same, Nat.mod_zero]
          · exact Nat.mod_eq_of_lt (by omega)
        rw [first]
    · have same : Within edi (n + 1) a ↔ Within edi n a := by
        unfold Within
        bv_omega
      rw [Function.update_of_ne last, ih (Nat.le_of_lt small)]
      simp only [same]

/-- The loop stops at the first zero. -/
theorem strLenLoop_eq_some (fuel : Nat) {s s' : MemLib} : strLenLoop fuel s = some s' ↔
    ∃ k < fuel, (∀ i < k, s.mem (s.esi + BitVec.ofNat 32 i) ≠ 0) ∧ s.mem (s.esi + BitVec.ofNat 32 k) = 0 ∧
      s' = { s with esi := s.esi + BitVec.ofNat 32 k, eax := s.eax + BitVec.ofNat 32 k } := by
  induction fuel generalizing s with
  | zero => simp [strLenLoop]
  | succ fuel ih =>
    rw [strLenLoop]
    by_cases zero : s.mem s.esi = 0
    · rw [if_pos zero]
      constructor
      · intro stopped
        refine ⟨0, Nat.succ_pos fuel, fun i inside => absurd inside (Nat.not_lt_zero i), ?_, ?_⟩
        · simpa using zero
        · simpa using (Option.some.inj stopped).symm
      · rintro ⟨k, _, before, _, rfl⟩
        -- a later stop would have passed the zero
        have first : k = 0 := by
          by_contra later
          exact before 0 (Nat.pos_of_ne_zero later) (by simpa using zero)
        simp [first]
    · rw [if_neg zero, ih]
      simp only [next_place]
      constructor
      · rintro ⟨k, inside, before, nul, rfl⟩
        refine ⟨k + 1, Nat.succ_lt_succ inside, ?_, nul, rfl⟩
        intro i low
        cases i with
        | zero => simpa using zero
        | succ i => exact before i (Nat.lt_of_succ_lt_succ low)
      · rintro ⟨k, inside, before, nul, rfl⟩
        cases k with
        | zero => exact absurd (by simpa using nul) zero
        | succ k =>
          exact ⟨k, Nat.lt_of_succ_lt_succ inside, fun i low => before (i + 1) (Nat.succ_lt_succ low), nul, rfl⟩

/-! ### The frame -/

/-- The range does not reach the frame of a call: what the caller has pushed, and four words below. -/
def Clear (s : MemLib) (start : BitVec 32) (n : Nat) : Prop :=
  ∀ a, Within (s.esp - 16) 32 a → ¬ Within start n a

/-- What every function gives back: the registers but `eax`, and the stack without the return address. -/
structure Returned (s s' : MemLib) : Prop where
  ecx : s'.ecx = s.ecx
  esi : s'.esi = s.esi
  edi : s'.edi = s.edi
  ebp : s'.ebp = s.ebp
  esp : s'.esp = s.esp + 4
  eip : s'.eip = s.mem.dword s.esp

/-- Memory behind the pushes of `memcpy`. -/
def pushed (s : MemLib) : Memory :=
  (((s.mem.storeDword (s.esp - 4) s.ebp).storeDword (s.esp - 8) s.esi).storeDword (s.esp - 12) s.edi).storeDword
    (s.esp - 16) s.ecx

/-- The places of the frame, from the top of the stack and from `ebp`. -/
theorem frame_places (e : BitVec 32) : e - 4 - 4 = e - 8 ∧ e - 8 - 4 = e - 12 ∧ e - 12 - 4 = e - 16 ∧
    e - 4 + 8 = e + 4 ∧ e - 4 + 12 = e + 8 ∧ e - 4 + 16 = e + 12 ∧ e - 16 + 4 = e - 12 ∧ e - 12 + 4 = e - 8 ∧
    e - 8 + 4 = e - 4 ∧ e - 4 + 4 = e := by
  refine ⟨?_, ?_, ?_, ?_, ?_, ?_, ?_, ?_, ?_, ?_⟩
  all_goals bv_omega

theorem memcpy_eq (s : MemLib) {m : Memory} (copied : m = repMovsb (s.pushed.dword (s.esp + 12)).toNat
    (s.pushed.dword (s.esp + 4)) (s.pushed.dword (s.esp + 8)) s.pushed) : s.memcpy =
    { eax := m.dword (s.esp + 4)
      ecx := m.dword (s.esp - 16)
      edi := m.dword (s.esp - 12)
      esi := m.dword (s.esp - 8)
      ebp := m.dword (s.esp - 4)
      esp := s.esp + 4
      eip := m.dword s.esp
      mem := m } := by
  obtain ⟨slot2, slot3, slot4, arg1, arg2, arg3, pop1, pop2, _, pop4⟩ := frame_places s.esp
  unfold memcpy
  extract_lets s₁ s₂ s₃ s₄ s₅ s₆ s₇ s₈ s₉ s₁₀ s₁₁ s₁₂
  have saved : s₄ = { s with ebp := s.esp - 4, esp := s.esp - 16, mem := s.pushed } := by
    simp only [s₄, s₃, s₂, s₁, push, enter, slot2, slot3, slot4, pushed]
  have loaded : s₇ = { s with
      ecx := s.pushed.dword (s.esp + 12)
      esi := s.pushed.dword (s.esp + 8)
      edi := s.pushed.dword (s.esp + 4)
      ebp := s.esp - 4
      esp := s.esp - 16
      mem := s.pushed } := by
    simp only [s₇, s₆, s₅, saved, arg, arg1, arg2, arg3]
  have moved : s₈.mem = m ∧ s₈.ebp = s.esp - 4 ∧ s₈.esp = s.esp - 16 := by
    simp only [s₈, loaded, movsb, copied, true_and]
  clear_value s₈
  obtain ⟨mem, ebp, esp⟩ := moved
  simp only [s₁₂, s₁₁, s₁₀, s₉, arg, top, leave, mem, ebp, esp, arg1, pop1, pop2, pop4]

/-- A word at or above the slot of `ebp` is not in the words that are pushed under it. -/
theorem above_push {e x n : BitVec 32} (above : (x - (e - 4)).toNat ≤ 16) (low : 8 ≤ n.toNat) (high : n.toNat ≤ 16) :
    4 ≤ (x - (e - n)).toNat ∧ 4 ≤ (e - n - x).toNat := by
  constructor
  · bv_omega
  · bv_omega

theorem dword_push {e x n : BitVec 32} (above : (x - (e - 4)).toNat ≤ 16) (low : 8 ≤ n.toNat) (high : n.toNat ≤ 16) :
    (m.storeDword (e - n) v).dword x = m.dword x :=
  dword_storeDword_other (above_push above low high).1 (above_push above low high).2

/-- What the functions find in the frame behind their pushes: the words of the caller and `ebp`. -/
structure Frame (s : MemLib) (p : Memory) : Prop where
  words : ∀ x, (x - s.esp).toNat ≤ 12 → p.dword x = s.mem.dword x
  ebp : p.dword (s.esp - 4) = s.ebp

theorem frame_enter (s : MemLib) : Frame s (s.mem.storeDword (s.esp - 4) s.ebp) := by
  constructor
  · intro x above
    apply dword_storeDword_other
    · bv_omega
    · bv_omega
  · exact dword_storeDword

theorem Frame.push {s : MemLib} {p : Memory} (frame : Frame s p) {n : BitVec 32} (low : 8 ≤ n.toNat) (high : n.toNat ≤ 16)
    (v : BitVec 32) : Frame s (p.storeDword (s.esp - n) v) := by
  constructor
  · intro x above
    rw [dword_push (by bv_omega) low high]
    exact frame.words x above
  · rw [dword_push (by bv_omega) low high]
    exact frame.ebp

theorem frame_pushed (s : MemLib) : Frame s s.pushed :=
  (((frame_enter s).push (by decide) (by decide) s.esi).push (by decide) (by decide) s.edi).push (by decide)
    (by decide) s.ecx

/-! ### Contracts -/

/-- An argument of the call, by its distance from the return address. -/
def param (s : MemLib) (n : BitVec 32) : BitVec 32 := s.mem.dword (s.esp + n)

variable {s : MemLib} {p : Memory}

theorem Frame.param (frame : Frame s p) {n : BitVec 32} (small : n.toNat ≤ 12) :
    p.dword (s.esp + n) = s.param n := by
  apply frame.words
  bv_omega

/-- A word of the frame that was out of the range is read back. -/
theorem dword_clear {start : BitVec 32} {n : Nat} (clear : s.Clear start n)
    (kept : ∀ a, ¬ Within start n a → m a = p a) {x : BitVec 32} (inside : (x - (s.esp - 16)).toNat ≤ 28) :
    m.dword x = p.dword x := by
  apply dword_congr
  intro b near
  apply kept
  apply clear
  unfold Within at *
  bv_omega

theorem pushed_other {a : BitVec 32} (above : ¬ Within (s.esp - 16) 16 a) : s.pushed a = s.mem a := by
  unfold Within at above
  rw [pushed, storeDword_other, storeDword_other, storeDword_other, storeDword_other]
  all_goals
    unfold Within
    bv_omega

/-- Words that were pushed earlier stand above. -/
theorem dword_pushed {e i j : BitVec 32} (apart : i.toNat + 4 ≤ j.toNat) (high : j.toNat ≤ 16) (v : BitVec 32) :
    (m.storeDword (e - j) v).dword (e - i) = m.dword (e - i) := by
  apply dword_storeDword_other
  · bv_omega
  · bv_omega

theorem pushed_words (s : MemLib) : s.pushed.dword (s.esp - 16) = s.ecx ∧ s.pushed.dword (s.esp - 12) = s.edi ∧
    s.pushed.dword (s.esp - 8) = s.esi := by
  refine ⟨dword_storeDword, ?_, ?_⟩
  · rw [pushed, dword_pushed (by decide) (by decide), dword_storeDword]
  · rw [pushed, dword_pushed (by decide) (by decide), dword_pushed (by decide) (by decide), dword_storeDword]

/-- A copy with any overlap, and the registers and the stack of the caller. -/
theorem memcpy_spec (clear : s.Clear (s.param 4) (s.param 12).toNat)
    (readable : ∀ a, Within (s.esp - 16) 16 a → ¬ Within (s.param 8) (s.param 12).toNat a) :
    Returned s s.memcpy ∧ s.memcpy.eax = s.param 4 ∧ ∀ a, ¬ Within (s.esp - 16) 16 a → s.memcpy.mem a =
      if Within (s.param 4) (s.param 12).toNat a then
        s.mem (s.param 8 + BitVec.ofNat 32 ((a - s.param 4).toNat % (s.param 4 - s.param 8).toNat))
      else s.mem a := by
  have frame := frame_pushed s
  obtain ⟨ecx, edi, esi⟩ := pushed_words s
  have forward := repMovsb_forward (s.param 12).toNat (Nat.le_of_lt (BitVec.isLt _)) (s.param 4) (s.param 8) s.pushed
  generalize same : repMovsb (s.param 12).toNat (s.param 4) (s.param 8) s.pushed = m at forward
  have returned : s.memcpy = _ := memcpy_eq s (m := m) (by
    rw [frame.param (by decide), frame.param (by decide), frame.param (by decide), same])
  have kept : ∀ a, ¬ Within (s.param 4) (s.param 12).toNat a → m a = s.pushed a := by
    intro a outside
    rw [forward, if_neg outside]
  have word (x : BitVec 32) (inside : (x - (s.esp - 16)).toNat ≤ 28) := dword_clear clear kept inside
  rw [returned]
  refine ⟨⟨?_, ?_, ?_, ?_, rfl, ?_⟩, ?_, ?_⟩
  · exact (word _ (by bv_omega)).trans ecx
  · exact (word _ (by bv_omega)).trans esi
  · exact (word _ (by bv_omega)).trans edi
  · exact (word _ (by bv_omega)).trans frame.ebp
  · exact (word _ (by bv_omega)).trans (frame.words _ (by bv_omega))
  · exact (word _ (by bv_omega)).trans (frame.param (by decide))
  · intro a above
    refine (forward a).trans ?_
    by_cases inside : Within (s.param 4) (s.param 12).toNat a
    · rw [if_pos inside, if_pos inside]
      apply pushed_other
      intro low
      apply readable _ low
      unfold Within at *
      have less := Nat.mod_le (a - s.param 4).toNat (s.param 4 - s.param 8).toNat
      rw [BitVec.add_comm, BitVec.add_sub_cancel, BitVec.toNat_ofNat]
      have bound := (a - s.param 4).isLt
      rw [Nat.mod_eq_of_lt (by omega)]
      omega
    · rw [if_neg inside, if_neg inside, pushed_other above]

/-- A call that copies five bytes to the place behind the first of them. -/
def overlapping : MemLib where
  eax := 0
  ecx := 1
  esi := 2
  edi := 3
  ebp := 4
  esp := 0x2000
  eip := 0
  mem := (((Memory.storeDword (fun a => if a = 0x1000 then 7 else 0) 0x2004 0x1001).storeDword 0x2008 0x1000).storeDword
    0x200c 5)

/-- The first byte is repeated. -/
theorem memcpy_spec_overlapping : Returned overlapping overlapping.memcpy ∧ overlapping.memcpy.mem 0x1005 = 7 := by
  have dst : overlapping.param 4 = 0x1001 := by decide
  have src : overlapping.param 8 = 0x1000 := by decide
  have count : overlapping.param 12 = 5 := by decide
  have clear : overlapping.Clear (overlapping.param 4) (overlapping.param 12).toNat := by
    rw [dst, count]
    intro a
    change Within (0x2000 - 16) 32 a → ¬ Within 0x1001 5 a
    unfold Within
    bv_omega
  have readable : ∀ a, Within (overlapping.esp - 16) 16 a →
      ¬ Within (overlapping.param 8) (overlapping.param 12).toNat a := by
    rw [src, count]
    intro a
    change Within (0x2000 - 16) 16 a → ¬ Within 0x1000 5 a
    unfold Within
    bv_omega
  obtain ⟨returned, _, copied⟩ := memcpy_spec clear readable
  refine ⟨returned, ?_⟩
  rw [copied 0x1005 (by decide), dst, src, count]
  decide

/-- Memory behind the pushes of `strlen`. -/
def aside (s : MemLib) : Memory := (s.mem.storeDword (s.esp - 4) s.ebp).storeDword (s.esp - 8) s.esi

/-- The state at the head of the loop. -/
def measuring (s : MemLib) : MemLib :=
  { s with eax := 0, esi := s.param 4, ebp := s.esp - 4, esp := s.esp - 8, mem := s.aside }

theorem frame_aside (s : MemLib) : Frame s s.aside := (frame_enter s).push (by decide) (by decide) s.esi

theorem strlen_eq (fuel : Nat) (s : MemLib) : s.strlen fuel = (strLenLoop fuel s.measuring).map fun t =>
    leave { t with esi := t.top, esp := t.esp + 4 } := by
  obtain ⟨slot2, _, _, arg1, _⟩ := frame_places s.esp
  have head : { { (s.enter.push s.esi) with esi := (s.enter.push s.esi).arg 8 } with eax := 0 } = s.measuring := by
    have param := (frame_aside s).param (n := 4) (by decide)
    rw [aside] at param
    simp only [enter, push, arg, slot2, arg1, measuring, aside, param]
  rw [strlen]
  change ((strLenLoop fuel { { (s.enter.push s.esi) with esi := (s.enter.push s.esi).arg 8 } with eax := 0 }).bind
    fun t => some (leave { t with esi := t.top, esp := t.esp + 4 })) = _
  rw [head]
  exact Option.map_eq_bind.symm

/-- `strlen` returns exactly if memory has a zero from the string on, with the number of bytes in
front of the first, and gives back the registers and the stack. -/
theorem strlen_iff (fuel : Nat) {s' : MemLib} : s.strlen fuel = some s' ↔
    ∃ k < fuel, (∀ i < k, s.aside (s.param 4 + BitVec.ofNat 32 i) ≠ 0) ∧
      s.aside (s.param 4 + BitVec.ofNat 32 k) = 0 ∧
      s' = { s with
        eax := BitVec.ofNat 32 k
        esp := s.esp + 4
        eip := s.mem.dword s.esp
        mem := s.aside } := by
  obtain ⟨_, _, _, _, _, _, _, _, _, pop4⟩ := frame_places s.esp
  have frame := frame_aside s
  have ret : s.aside.dword s.esp = s.mem.dword s.esp := frame.words _ (by bv_omega)
  have esi : s.aside.dword (s.esp - 8) = s.esi := dword_storeDword
  -- behind the loop the stack is as it was at its head
  have left (k : Nat) {t : MemLib} (stopped : t = { s.measuring with
      esi := s.measuring.esi + BitVec.ofNat 32 k
      eax := s.measuring.eax + BitVec.ofNat 32 k }) : leave { t with esi := t.top, esp := t.esp + 4 } = { s with
        eax := BitVec.ofNat 32 k
        esp := s.esp + 4
        eip := s.mem.dword s.esp
        mem := s.aside } := by
    have fromZero : (0 : BitVec 32) + BitVec.ofNat 32 k = BitVec.ofNat 32 k := BitVec.zero_add _
    rw [stopped]
    simp only [measuring, top, leave, pop4, ret, esi, frame.ebp, fromZero]
  rw [strlen_eq, Option.map_eq_some_iff]
  simp only [strLenLoop_eq_some]
  constructor
  · rintro ⟨t, ⟨k, inside, before, nul, stopped⟩, rfl⟩
    exact ⟨k, inside, before, nul, left k stopped⟩
  · rintro ⟨k, inside, before, nul, rfl⟩
    exact ⟨_, ⟨k, inside, before, nul, rfl⟩, left k rfl⟩

end MemLib

end OperatorSystem.Kernel
