import OperatorSystem.Boot.FlatMemory

/-!
# Moving the kernel to its place (`setup.asm`)

The loop copies the file part of every segment whose type is not `PT_NULL`. It
never looks at `p_memsz`, so what follows the file part keeps the bytes it had,
and it takes headers of any other type for segments to be loaded. The main
result `initKernel_iff` says when the segments are nevertheless in memory as
their headers tell.
-/

namespace OperatorSystem.Boot

def baseOfKernelFile : BitVec 32 := 0x50000

/-- The fields of a program header that say what belongs where; `initKernel` reads all but the last. -/
structure ProgramHeader where
  pType : BitVec 32
  pOffset : BitVec 32
  pVaddr : BitVec 32
  pFilesz : BitVec 32
  pMemsz : BitVec 32
deriving DecidableEq

namespace Memory

def headerAt (m : Memory) (esi : BitVec 32) : ProgramHeader :=
  ⟨m.dword esi, m.dword (esi + 4), m.dword (esi + 8), m.dword (esi + 0x10), m.dword (esi + 0x14)⟩

/-- A round of `.begin`, up to `.noAcation`. -/
def copySegment (m : Memory) (esi : BitVec 32) : Memory :=
  let eax := m.dword esi
  if eax = 0 then m
  else
    let eax := m.dword (esi + 4) + baseOfKernelFile
    memCpy (m.dword (esi + 8)) eax (m.dword (esi + 0x10)) m

def initLoop : Nat → BitVec 32 → BitVec 32 → Memory → Option Memory
  | 0, _, _, _ => none
  | fuel + 1, ecx, esi, m =>
    let m := m.copySegment esi
    let esi := esi + 0x20
    let ecx := ecx - 1
    if ecx = 0 then some m else initLoop fuel ecx esi m

/-- `e_phnum` and the address of the headers -/
def phnum (m : Memory) : BitVec 16 := m.half (baseOfKernelFile + 0x2C)
def phTable (m : Memory) : BitVec 32 := baseOfKernelFile + m.dword (baseOfKernelFile + 0x1C)

def initKernel (m : Memory) : Option Memory := m.initLoop 0x100000000 (m.phnum.setWidth 32) m.phTable

/-! ## Files -/

def headersFrom (m : Memory) : BitVec 32 → Nat → List ProgramHeader
  | _, 0 => []
  | esi, n + 1 => m.headerAt esi :: m.headersFrom (esi + 0x20) n

def headers (m : Memory) : List ProgramHeader := m.headersFrom m.phTable m.phnum.toNat

end Memory

namespace ProgramHeader

/-- The address in the file image of the byte for `a`. -/
def source (h : ProgramHeader) (a : BitVec 32) : BitVec 32 := h.pOffset + baseOfKernelFile + (a - h.pVaddr)

def InFile (h : ProgramHeader) (a : BitVec 32) : Prop := Memory.Within h.pVaddr h.pFilesz.toNat a

def InMemory (h : ProgramHeader) (a : BitVec 32) : Prop := Memory.Within h.pVaddr h.pMemsz.toNat a

def Load (h : ProgramHeader) : Prop := h.pType = 1

/-- `initKernel` stores to `a` on behalf of this header. -/
def Copies (h : ProgramHeader) (a : BitVec 32) : Prop := h.pType ≠ 0 ∧ h.InFile a

instance (h : ProgramHeader) (a : BitVec 32) : Decidable (h.InFile a) :=
  inferInstanceAs (Decidable (Memory.Within _ _ _))

instance (h : ProgramHeader) (a : BitVec 32) : Decidable (h.Copies a) := inferInstanceAs (Decidable (_ ∧ _))

/-- What a segment has at `a`: a byte of the file, or zero behind the file part. -/
def content (m : Memory) (h : ProgramHeader) (a : BitVec 32) : BitVec 8 := if h.InFile a then m (h.source a) else 0

theorem Load.copies {h : ProgramHeader} {a : BitVec 32} (load : h.Load) (inside : h.InFile a) : h.Copies a :=
  ⟨by rw [load]; decide, inside⟩

end ProgramHeader

namespace Memory

/-- A file of `size` bytes lies at `0x50000`: its headers and what they refer to are in the file, and no
segment goes where the file lies. -/
structure Elf (m : Memory) (size : Nat) : Prop where
  fits : 0x50000 + size ≤ 2 ^ 32
  header : 52 ≤ size
  phentsize : m.half (baseOfKernelFile + 0x2A) = 32
  phnum : 1 ≤ m.phnum.toNat
  table : (m.dword (baseOfKernelFile + 0x1C)).toNat + 32 * m.phnum.toNat ≤ size
  parts : ∀ h ∈ m.headers, h.pType ≠ 0 → h.pOffset.toNat + h.pFilesz.toNat ≤ size
  loads : ∀ h ∈ m.headers, h.Load → h.pFilesz.toNat ≤ h.pMemsz.toNat
  apart : ∀ h ∈ m.headers, ∀ a, Within baseOfKernelFile size a → ¬ h.Copies a

variable {m m' : Memory} {size : Nat} {h : ProgramHeader} {esi a : BitVec 32}

/-- The image of the file is as before. -/
def SameImage (m : Memory) (size : Nat) (m' : Memory) : Prop := ∀ a, Within baseOfKernelFile size a → m' a = m a

theorem headerAt_congr (inside : ∀ a, Within esi 32 a → Within baseOfKernelFile size a)
    (same : SameImage m size m') : m'.headerAt esi = m.headerAt esi := by
  have field : ∀ o : BitVec 32, o.toNat ≤ 28 → m'.dword (esi + o) = m.dword (esi + o) := by
    intro o small
    refine dword_congr fun b member => same b (inside b ?_)
    unfold Within at *
    bv_omega
  have first : m'.dword esi = m.dword esi := by simpa using field 0 (by decide)
  rw [headerAt, headerAt, first, field 4 (by decide), field 8 (by decide), field 0x10 (by decide),
    field 0x14 (by decide)]

theorem headersFrom_congr (n : Nat) (inside : ∀ a, Within esi (32 * n) a → Within baseOfKernelFile size a)
    (room : 32 * n < 2 ^ 32) (same : SameImage m size m') : m'.headersFrom esi n = m.headersFrom esi n := by
  induction n generalizing esi with
  | zero => rfl
  | succ n ih =>
    have first : ∀ a, Within esi 32 a → Within baseOfKernelFile size a := fun a near =>
      inside a (Nat.lt_of_lt_of_le near (by omega))
    have later : ∀ a, Within (esi + 0x20) (32 * n) a → Within baseOfKernelFile size a := fun a near =>
      inside a (by unfold Within at *; bv_omega)
    rw [headersFrom, headersFrom, headerAt_congr first same, ih later (by omega)]

/-- The headers lie in the image. -/
theorem Elf.table_inside (elf : m.Elf size) :
    ∀ a, Within m.phTable (32 * m.phnum.toNat) a → Within baseOfKernelFile size a := by
  intro a near
  have fits := elf.fits
  have table := elf.table
  unfold Within phTable baseOfKernelFile at *
  bv_omega

/-- The fields of the file header lie in the image. -/
theorem Elf.field_inside (elf : m.Elf size) {o : BitVec 32} {k : Nat} (small : o.toNat + k ≤ 52) :
    ∀ a, Within (baseOfKernelFile + o) k a → Within baseOfKernelFile size a := by
  intro a near
  have header := elf.header
  unfold Within baseOfKernelFile at *
  bv_omega

theorem Elf.headers_congr (elf : m.Elf size) (same : SameImage m size m') : m'.headers = m.headers := by
  have count : m'.phnum = m.phnum := half_congr fun b near => same b (elf.field_inside (by decide) b near)
  have start : m'.phTable = m.phTable := by
    rw [phTable, phTable, dword_congr fun b near => same b (elf.field_inside (by decide) b near)]
  have bound := m.phnum.isLt
  rw [headers, headers, count, start, headersFrom_congr _ elf.table_inside (by omega) same]

/-- A file that has not changed is still a file, for a memory that has changed elsewhere. -/
theorem Elf.congr (elf : m.Elf size) (same : SameImage m size m') : m'.Elf size where
  fits := elf.fits
  header := elf.header
  phentsize := by
    rw [half_congr fun b near => same b (elf.field_inside (by decide) b near)]
    exact elf.phentsize
  phnum := by
    rw [Memory.phnum, half_congr fun b near => same b (elf.field_inside (by decide) b near)]
    exact elf.phnum
  table := by
    rw [Memory.phnum, dword_congr fun b near => same b (elf.field_inside (by decide) b near),
      half_congr fun b near => same b (elf.field_inside (by decide) b near)]
    exact elf.table
  parts := by
    rw [elf.headers_congr same]
    exact elf.parts
  loads := by
    rw [elf.headers_congr same]
    exact elf.loads
  apart := by
    rw [elf.headers_congr same]
    exact elf.apart

/-- The effect of one header, with the bytes of the file as they were at the start. -/
def load (m₀ : Memory) (m : Memory) (h : ProgramHeader) : Memory := fun a => if h.Copies a then m₀ (h.source a) else m a

theorem load_same (m₀ : Memory) (apart : ∀ a, Within baseOfKernelFile size a → ¬ h.Copies a) :
    SameImage m size (load m₀ m h) := fun a inside => if_neg (apart a inside)

/-- The bytes of the file part lie in the image. -/
theorem source_inside (fits : 0x50000 + size ≤ 2 ^ 32) (part : h.pOffset.toNat + h.pFilesz.toNat ≤ size)
    (within : Within (h.pOffset + baseOfKernelFile) h.pFilesz.toNat a) : Within baseOfKernelFile size a := by
  unfold Within baseOfKernelFile at *
  bv_omega

/-- One round stores the file part of its header, and nothing for a header without a type. -/
theorem copySegment_spec {m₀ : Memory} (fits : 0x50000 + size ≤ 2 ^ 32)
    (inside : ∀ a, Within esi 32 a → Within baseOfKernelFile size a)
    (part : (m₀.headerAt esi).pType ≠ 0 → (m₀.headerAt esi).pOffset.toNat + (m₀.headerAt esi).pFilesz.toNat ≤ size)
    (apart : ∀ a, Within baseOfKernelFile size a → ¬ (m₀.headerAt esi).Copies a) (same : SameImage m₀ size m) :
    m.copySegment esi = load m₀ m (m₀.headerAt esi) := by
  have read : m.headerAt esi = m₀.headerAt esi := headerAt_congr inside same
  rw [← read] at part apart ⊢
  have step : m.copySegment esi = if (m.headerAt esi).pType = 0 then m else
      memCpy (m.headerAt esi).pVaddr ((m.headerAt esi).pOffset + baseOfKernelFile) (m.headerAt esi).pFilesz m := rfl
  rw [step]
  generalize m.headerAt esi = h at part apart ⊢
  by_cases null : h.pType = 0
  · rw [if_pos null]
    exact (funext fun a => if_neg fun copies => copies.1 null).symm
  · rw [if_neg null]
    have part := part null
    funext a
    -- what is still to be read is in the file, and nothing is copied over the file
    have clear : ∀ a, Within (h.pOffset + baseOfKernelFile) h.pFilesz.toNat a → ¬ Within h.pVaddr h.pFilesz.toNat a :=
      fun a read written => apart a (source_inside fits part read) ⟨null, written⟩
    rw [memCpy, repMovsb_spec _ (Nat.le_of_lt (BitVec.isLt _)) clear, load]
    by_cases copied : Within h.pVaddr h.pFilesz.toNat a
    · have there : Within (h.pOffset + baseOfKernelFile) h.pFilesz.toNat (h.source a) := by
        have offset : h.source a - (h.pOffset + baseOfKernelFile) = a - h.pVaddr := by
          unfold ProgramHeader.source
          bv_omega
        unfold Within at *
        rw [offset]
        exact copied
      rw [if_pos copied, if_pos ⟨null, copied⟩]
      exact same _ (source_inside fits part there)
    · rw [if_neg copied, if_neg fun copies => copied copies.2]

/-- The rounds, one after the other: the induction is on the headers that are left. -/
theorem initLoop_spec {m₀ : Memory} (fits : 0x50000 + size ≤ 2 ^ 32) (n fuel : Nat) (enough : n < fuel)
    (small : n + 1 < 2 ^ 32) (table : ∀ a, Within esi (32 * (n + 1)) a → Within baseOfKernelFile size a)
    (room : 32 * (n + 1) < 2 ^ 32)
    (parts : ∀ h ∈ m₀.headersFrom esi (n + 1), h.pType ≠ 0 → h.pOffset.toNat + h.pFilesz.toNat ≤ size)
    (apart : ∀ h ∈ m₀.headersFrom esi (n + 1), ∀ a, Within baseOfKernelFile size a → ¬ h.Copies a)
    (same : SameImage m₀ size m) : m.initLoop fuel (BitVec.ofNat 32 (n + 1)) esi =
      some ((m₀.headersFrom esi (n + 1)).foldl (load m₀) m) := by
  induction n generalizing fuel esi m with
  | zero =>
    obtain ⟨fuel, rfl⟩ := Nat.exists_eq_succ_of_ne_zero (Nat.ne_of_gt enough)
    have step := copySegment_spec fits table (parts _ List.mem_cons_self) (apart _ List.mem_cons_self) same
    rw [initLoop, step]
    rfl
  | succ n ih =>
    obtain ⟨fuel, rfl⟩ := Nat.exists_eq_succ_of_ne_zero (Nat.ne_of_gt (Nat.lt_of_le_of_lt (Nat.zero_le _) enough))
    -- the first header, and the rest of the table behind it
    have first : ∀ a, Within esi 32 a → Within baseOfKernelFile size a := fun a near =>
      table a (Nat.lt_of_lt_of_le near (by omega))
    have later : ∀ a, Within (esi + 0x20) (32 * (n + 1)) a → Within baseOfKernelFile size a := fun a near =>
      table a (by unfold Within at *; bv_omega)
    have step := copySegment_spec fits first (parts _ List.mem_cons_self) (apart _ List.mem_cons_self) same
    have down : BitVec.ofNat 32 (n + 1 + 1) - 1 = BitVec.ofNat 32 (n + 1) := by bv_omega
    have more : BitVec.ofNat 32 (n + 1) ≠ 0 := by bv_omega
    rw [initLoop, step]
    simp only [down]
    rw [if_neg more, ih fuel (by omega) (by omega) later (by omega)
      (fun h member => parts h (List.mem_cons_of_mem _ member))
      (fun h member => apart h (List.mem_cons_of_mem _ member))]
    · rfl
    · intro a near
      rw [load_same m₀ (apart _ List.mem_cons_self) a near, same a near]

/-- The last header in the table that stores to `a`. -/
def lastCopy (hs : List ProgramHeader) (a : BitVec 32) : Option ProgramHeader := hs.reverse.find? fun h => h.Copies a

theorem foldl_load (m₀ : Memory) (hs : List ProgramHeader) :
    hs.foldl (load m₀) m a = (lastCopy hs a).elim (m a) fun h => m₀ (h.source a) := by
  induction hs generalizing m with
  | nil => rfl
  | cons h hs ih =>
    rw [List.foldl_cons, ih, lastCopy, lastCopy, List.reverse_cons, List.find?_append]
    cases hs.reverse.find? fun h => h.Copies a with
    | some k => rfl
    | none =>
      by_cases copies : h.Copies a
      · simp [load, copies]
      · simp [load, copies]

theorem lastCopy_some {hs : List ProgramHeader} {k : ProgramHeader} (last : lastCopy hs a = some k) :
    k ∈ hs ∧ k.Copies a :=
  ⟨List.mem_reverse.mp (List.mem_of_find?_eq_some last), by simpa using List.find?_some last⟩

theorem lastCopy_none {hs : List ProgramHeader} (last : lastCopy hs a = none) : ∀ k ∈ hs, ¬ k.Copies a := by
  intro k member copies
  have skipped := List.find?_eq_none.mp last k (List.mem_reverse.mpr member)
  exact skipped (decide_eq_true copies)

/-- `initKernel` ends, and the last header that reaches an address decides what is there. -/
theorem initKernel_spec (elf : m.Elf size) : ∃ m', m.initKernel = some m' ∧
    ∀ a, m' a = (lastCopy m.headers a).elim (m a) fun h => m (h.source a) := by
  obtain ⟨n, count⟩ := Nat.exists_eq_succ_of_ne_zero (Nat.ne_of_gt elf.phnum)
  have bound := m.phnum.isLt
  have inside := elf.table_inside
  have parts := elf.parts
  have apart := elf.apart
  rw [count] at inside
  rw [headers, count] at parts apart
  have rounds := initLoop_spec (m := m) elf.fits n 0x100000000 (by omega) (by omega) inside
    (by omega) parts apart fun _ _ => rfl
  have ecx : m.phnum.setWidth 32 = BitVec.ofNat 32 (n + 1) := by bv_omega
  refine ⟨_, by rw [initKernel, ecx]; exact rounds, fun a => ?_⟩
  rw [foldl_load, headers, count]

/-! ## Segments -/

/-- Every segment is in its place, with zeros behind the file part, and nothing else has changed. -/
structure Loaded (m m' : Memory) : Prop where
  segment : ∀ h ∈ m.headers, h.Load → ∀ a, h.InMemory a → m' a = h.content m a
  outside : ∀ a, (∀ h ∈ m.headers, h.Load → ¬ h.InMemory a) → m' a = m a

/-- When copying the file parts is enough. -/
structure Loadable (m : Memory) : Prop where
  agree : ∀ h ∈ m.headers, h.Load → ∀ k ∈ m.headers, k.Load → ∀ a, h.InMemory a → k.InMemory a →
    h.content m a = k.content m a
  zero : ∀ h ∈ m.headers, h.Load → ∀ a, h.InMemory a → (∀ k ∈ m.headers, ¬ k.Copies a) → m a = 0
  others : ∀ a k, lastCopy m.headers a = some k → ¬ k.Load →
    (∀ h ∈ m.headers, h.Load → h.InMemory a → m (k.source a) = h.content m a) ∧
      ((∀ h ∈ m.headers, h.Load → ¬ h.InMemory a) → m (k.source a) = m a)

theorem Loaded.loadable (loaded : Loaded m m')
    (final : ∀ a, m' a = (lastCopy m.headers a).elim (m a) fun h => m (h.source a)) : m.Loadable := by
  constructor
  · intro h member load k member' load' a inside inside'
    rw [← loaded.segment h member load a inside, ← loaded.segment k member' load' a inside']
  · intro h member load a inside none
    have last : lastCopy m.headers a = Option.none := by
      refine List.find?_eq_none.mpr fun k listed => ?_
      simpa using none k (List.mem_reverse.mp listed)
    have behind : h.content m a = 0 := if_neg fun copied => none h member (load.copies copied)
    rw [← behind, ← loaded.segment h member load a inside, final, last]
    rfl
  · intro a k last _
    have there : m' a = m (k.source a) := by
      rw [final, last]
      rfl
    rw [← there]
    exact ⟨fun h member load inside => loaded.segment h member load a inside, loaded.outside a⟩

theorem Loadable.loaded (loadable : m.Loadable) (elf : m.Elf size)
    (final : ∀ a, m' a = (lastCopy m.headers a).elim (m a) fun h => m (h.source a)) : Loaded m m' := by
  have inMemory : ∀ {k a}, k ∈ m.headers → k.Load → k.Copies a → k.InMemory a := fun member load copies =>
    Nat.lt_of_lt_of_le copies.2 (elf.loads _ member load)
  constructor
  · intro h member load a inside
    rw [final]
    -- a byte is that of the last header that copies something to it
    cases last : lastCopy m.headers a with
    | none =>
      have free := lastCopy_none last
      have behind : h.content m a = 0 := if_neg fun copied => free h member (load.copies copied)
      rw [behind]
      exact loadable.zero h member load a inside free
    | some k =>
      obtain ⟨member', copies⟩ := lastCopy_some last
      by_cases load' : k.Load
      · have own : k.content m a = m (k.source a) := if_pos copies.2
        exact own.symm.trans (loadable.agree k member' load' h member load a (inMemory member' load' copies) inside)
      · exact (loadable.others a k last load').1 h member load inside
  · intro a free
    rw [final]
    cases last : lastCopy m.headers a with
    | none => rfl
    | some k =>
      obtain ⟨member', copies⟩ := lastCopy_some last
      by_cases load' : k.Load
      · exact absurd (inMemory member' load' copies) (free k member' load')
      · exact (loadable.others a k last load').2 free

/-- The segments are loaded exactly if those that overlap agree, the bytes behind the file parts are
zero already, and no header of another type has the last word on a byte that should be different. -/
theorem initKernel_iff (elf : m.Elf size) : ∃ m', m.initKernel = some m' ∧ (Loaded m m' ↔ m.Loadable) := by
  obtain ⟨m', done, final⟩ := initKernel_spec elf
  exact ⟨m', done, fun loaded => loaded.loadable final, fun loadable => loadable.loaded elf final⟩

/-! A file with one segment, of one byte in the file and two in memory, where the second is not zero before. -/

def bssImage : Memory := fun a =>
  if a = 0x5002C then 1 else if a = 0x5002A then 32 else if a = 0x5001C then 52
  else if a = 0x50034 then 1 else if a = 0x50038 then 84 else if a = 0x5003E then 1
  else if a = 0x50044 then 1 else if a = 0x50048 then 2
  else if a = 0x50054 then 0xC3 else if a = 0x10001 then 0xFF else 0

theorem bssImage_headers : bssImage.headers = [⟨1, 84, 0x10000, 1, 2⟩] := by decide

theorem bssImage_elf : bssImage.Elf 85 where
  fits := by decide
  header := by decide
  phentsize := by decide
  phnum := by decide
  table := by decide
  parts h member _ := by
    rw [bssImage_headers, List.mem_singleton] at member
    subst member
    decide
  loads h member _ := by
    rw [bssImage_headers, List.mem_singleton] at member
    subst member
    decide
  apart h member a inside := by
    rw [bssImage_headers, List.mem_singleton] at member
    subst member
    rintro ⟨-, copied⟩
    unfold ProgramHeader.InFile Within baseOfKernelFile at *
    bv_omega

theorem initKernel_iff_bss : ∃ m', bssImage.initKernel = some m' ∧ (Loaded bssImage m' ↔ bssImage.Loadable) :=
  initKernel_iff bssImage_elf

theorem initKernel_leaves_bss : ∃ m', bssImage.initKernel = some m' ∧ ¬ Loaded bssImage m' := by
  obtain ⟨m', done, final⟩ := initKernel_spec bssImage_elf
  refine ⟨m', done, fun loaded => ?_⟩
  have segment := loaded.segment ⟨1, 84, 0x10000, 1, 2⟩ (by rw [bssImage_headers]; exact List.mem_singleton_self _)
    rfl 0x10001 (by unfold ProgramHeader.InMemory Within; decide)
  have before : m' 0x10001 = 0xFF := by
    rw [final, bssImage_headers]
    decide
  rw [before] at segment
  exact absurd segment (by decide)

end Memory

end OperatorSystem.Boot
