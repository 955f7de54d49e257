import OperatorSystem.Boot.RealMode

/-!
# Loading the kernel (`setup.asm`, `floppylib.inc`)

The loop reads one cluster after the other to `es:bx` and looks the next one up
in the file allocation table. After 128 sectors `bx` wraps to 0 and a new
segment is due, but `mov es, bx` comes where `mov bx, es` is meant: the loop
goes on at segment `0x1000`. The main result `loadKernel_iff` is that the file
lies where it should exactly if it has at most 128 clusters.
-/

namespace OperatorSystem.Boot

/-- The offsets of the labels in `setup`, given by the assembler. -/
structure Labels where
  bytsPerSec : Nat
  secPerTrk : Nat
  drvNum : Nat
  evenOrOdd : Nat
  stringLoadingKernel : Nat
  topOfStack : Nat

/-- The order of the labels: the header, the variables, the texts, and the stack of 256 bytes. -/
structure Labels.Placed (L : Labels) : Prop where
  bytsPerSec : L.bytsPerSec + 2 ≤ L.evenOrOdd
  secPerTrk : L.secPerTrk + 2 ≤ L.evenOrOdd
  evenOrOdd : L.evenOrOdd < L.stringLoadingKernel
  string : L.stringLoadingKernel + 2 + 256 ≤ L.topOfStack
  image : L.topOfStack ≤ 0xA000

def baseOfKernel : Nat := 0x5000
def offsetOfKernel : Nat := 0
def bufferFatAddress : Nat := 0x9B00
def bufferFatOffset : Nat := 0x0200
def dataSectorStart : Nat := 19 + 14 - 2
def fatSectorStart : Nat := 1

namespace Cpu

/-- A byte of the segment of `setup`. -/
def byte (s : Cpu) (off : Nat) : Nat := (s.mem (phys setupSeg off)).toNat

/-- `push ax`, `shr al,1`, `mov ch,al`, `pop ax` -/
def cylinder (s : Cpu) : Cpu :=
  let s := s.push s.ax
  let s := s.setAx (withLow s.ax (low s.ax / 2))
  let s := s.setCx (withHigh s.cx (low s.ax))
  s.drop.setAx s.top

/-- `and al,1`, `mov dh,al`, `inc ah`, `mov cl,ah` -/
def headAndSector (s : Cpu) : Cpu :=
  let s := s.setAx (withLow s.ax (low s.ax % 2))
  let s := s.setDx (withHigh s.dx (low s.ax))
  let s := s.setAx (withHigh s.ax ((high s.ax + 1) % 256))
  s.setCx (withLow s.cx (high s.ax))

/-- The middle of `readSector`: cylinder, head and sector for the sector number in `ax`. -/
def locate (L : Labels) (s : Cpu) : Option Cpu := do
  let s := s.setDx (withLow s.dx (s.byte L.secPerTrk))
  let s ← s.divByte (low s.dx)
  let s := s.cylinder.headAndSector
  return s.setDx (withLow s.dx (s.byte L.drvNum))

/-- `cx` sectors from number `ax` on go to `es:bx`. -/
def readSector (d : Disk) (L : Labels) (s : Cpu) : Option Cpu := do
  let s := s.push s.ax
  let s := s.push s.cx
  let s := s.setBp s.sp
  let s ← s.locate L
  let s := s.setAx (s.word (phys setupSeg s.bp))
  let s := s.setAx (withHigh s.ax 0x02)
  let s := s.int13 d
  let s := s.drop.setCx s.top
  return s.drop.setAx s.top

/-- `readFATValue` up to the first division: the offset of the entry, and whether it is an odd one. -/
def entryOffset (L : Labels) (s : Cpu) : Option Cpu := do
  let s := s.setDx bufferFatAddress
  let s := s.setEs s.dx
  let s := s.store (phys setupSeg L.evenOrOdd) 0
  let s := s.setBx 3
  let s := s.mulWord s.bx
  let s := s.setBx 2
  let s ← s.divWord s.bx
  return if s.dx = 0 then s else s.store (phys setupSeg L.evenOrOdd) 1

/-- The second division: the sector of the table and the offset in it. -/
def entrySector (L : Labels) (s : Cpu) : Option Cpu := do
  let s := s.setDx 0
  let s := s.setBx (s.word (phys setupSeg L.bytsPerSec))
  s.divWord s.bx

/-- The word of the entry, and the registers from the stack. -/
def entryWord (s : Cpu) : Cpu :=
  let s := s.drop.setDx s.top
  let s := s.setBx ((s.bx + s.dx) % 0x10000)
  let s := s.setAx (s.word (phys s.es s.bx))
  let s := s.drop.setBx s.top
  s.drop.setEs s.top

/-- The number of a cluster in `ax` is replaced by the number of the next one. -/
def readFATValue (d : Disk) (L : Labels) (s : Cpu) : Option Cpu := do
  let s := s.push s.es
  let s := s.push s.bx
  let s ← s.entryOffset L
  let s ← s.entrySector L
  let s := s.push s.dx
  let s := s.setAx ((s.ax + fatSectorStart) % 0x10000)
  let s := s.setCx 2
  let s := s.setBx bufferFatOffset
  let s ← s.readSector d L
  let s := s.entryWord
  return if s.byte L.evenOrOdd = 0 then s.setAx (s.ax % 0x1000) else s.setAx (s.ax / 16)

/-- The characters from `si` on go to the screen, up to a zero. -/
def displayLoop : Nat → Cpu → Option Cpu
  | 0, _ => none
  | fuel + 1, s =>
    let s := s.setAx (withLow s.ax (s.byte s.si))
    if low s.ax = 0 then some s
    else displayLoop fuel
      (((s.storeWord (phys screenSeg s.di) s.ax).setSi ((s.si + 1) % 0x10000)).setDi ((s.di + 2) % 0x10000))

def displayString (s : Cpu) : Option Cpu := do
  let s := s.push s.ax
  let s := s.setAx (withHigh s.ax 0x0F)
  let s ← s.displayLoop 0x10000
  return s.drop.setAx s.top

/-- The end of a round of `LOOP_LOADING_KERNEL_FILE`: where the next sector goes. -/
def advance (s : Cpu) : Cpu :=
  let s := s.setBx ((s.bx + 512) % 0x10000)
  if s.bx ≠ offsetOfKernel then s
  else
    -- the offset wrapped: the segment comes from `bx`, not from `es`
    let s := s.setEs s.bx
    let s := s.setBx ((s.bx + 0x1000) % 0x10000)
    let s := s.setEs s.bx
    s.setBx offsetOfKernel

/-- A round of `LOOP_LOADING_KERNEL_FILE` up to the test: a cluster, a dot, and the number of the next cluster. -/
def loadCluster (d : Disk) (L : Labels) (s : Cpu) : Option Cpu := do
  let s := s.push s.ax
  let s := s.setAx ((s.ax + dataSectorStart) % 0x10000)
  let s := s.setCx 1
  let s ← s.readSector d L
  let s := s.setSi L.stringLoadingKernel
  let s ← s.displayString
  let s := s.drop.setAx s.top
  s.readFATValue d L

/-- `LOOP_LOADING_KERNEL_FILE` -/
def loadKernel (d : Disk) (L : Labels) : Nat → Cpu → Option Cpu
  | 0, _ => none
  | fuel + 1, s => do
    let s ← s.loadCluster d L
    if 0xFF7 ≤ s.ax then some s else loadKernel d L fuel s.advance

section ReadSector

variable {d : Disk} {L : Labels} {s : Cpu}

/-- The registers that no part of `readSector` but the last instructions changes. -/
structure Aside (s s' : Cpu) : Prop where
  bx : s'.bx = s.bx
  si : s'.si = s.si
  di : s'.di = s.di
  sp : s'.sp = s.sp
  es : s'.es = s.es

theorem Aside.trans {s s' s'' : Cpu} (first : Aside s s') (second : Aside s' s'') : Aside s s'' :=
  ⟨second.bx.trans first.bx, second.si.trans first.si, second.di.trans first.di, second.sp.trans first.sp,
    second.es.trans first.es⟩

theorem aside_setAx (s : Cpu) (v : Nat) : Aside s (s.setAx v) := ⟨rfl, rfl, rfl, rfl, rfl⟩

theorem aside_setCx (s : Cpu) (v : Nat) : Aside s (s.setCx v) := ⟨rfl, rfl, rfl, rfl, rfl⟩

theorem aside_setDx (s : Cpu) (v : Nat) : Aside s (s.setDx v) := ⟨rfl, rfl, rfl, rfl, rfl⟩

theorem aside_storeWord (s : Cpu) (a w : Nat) : Aside s (s.storeWord a w) := ⟨rfl, rfl, rfl, rfl, rfl⟩

theorem aside_int13 (d : Disk) (s : Cpu) : Aside s (s.int13 d) := ⟨rfl, rfl, rfl, rfl, rfl⟩

/-- The bytes of the stack from `n` bytes below `sp` on. -/
def Below (s : Cpu) (n : Nat) (a : Nat) : Prop := phys setupSeg (s.sp - n) ≤ a ∧ a < phys setupSeg s.sp

theorem cylinder_spec (small : s.ax < 0x10000) (room : 2 ≤ s.sp) (inside : s.sp < 0xFFFE) :
    s.cylinder.ax = s.ax ∧ s.cylinder.cx = withHigh s.cx (low s.ax / 2) ∧ s.cylinder.bp = s.bp ∧
      Aside s s.cylinder ∧ Writes (s.Below 2) s s.cylinder := by
  have pushed := push_spec room (Nat.lt_trans inside (by decide)) small
  unfold cylinder
  generalize s.push s.ax = p at pushed ⊢
  have restored : (p.sp + 2) % 0x10000 = s.sp := by
    rw [pushed.sp]
    omega
  have half : low (withLow p.ax (low p.ax / 2)) = low s.ax / 2 := by
    rw [pushed.ax]
    simp only [low, withLow]
    omega
  -- the value pushed before is on the top of the stack again
  have top : ((p.setAx (withLow p.ax (low p.ax / 2))).setCx (withHigh p.cx (low s.ax / 2))).top = s.ax := by
    simp only [Cpu.top, word, setCx_mem, setAx_mem, setCx_sp, setAx_sp]
    exact pushed.top
  rw [pushed.cx] at top
  simp only [setAx_ax, setAx_cx, drop_cx, setCx_cx, half, pushed.cx, top, setAx_bp, drop_bp, setCx_bp, pushed.bp,
    true_and]
  constructor
  · constructor <;> simp [pushed.bx, pushed.si, pushed.di, pushed.es, restored]
  · apply pushed.writes.trans
    apply Writes.none <;> simp

theorem headAndSector_spec (s : Cpu) : high s.headAndSector.dx = low s.ax % 2 ∧
    low s.headAndSector.cx = (high s.ax + 1) % 256 ∧ high s.headAndSector.cx = high s.cx ∧
      s.headAndSector.bp = s.bp ∧ Aside s s.headAndSector ∧ Writes (fun _ => False) s s.headAndSector := by
  refine ⟨?_, ?_, ?_, ?_, ?_, ?_⟩
  · simp only [headAndSector, setCx_dx, setAx_dx, setDx_dx, setAx_ax]
    rw [high_withHigh (low_lt _), low_withLow (by omega)]
  · simp only [headAndSector, setCx_cx, setDx_cx, setAx_cx, setDx_ax, setAx_ax]
    rw [high_withHigh (Nat.mod_lt _ (by decide)), low_withLow (Nat.mod_lt _ (by decide)), high_withLow (by omega)]
  · simp only [headAndSector, setCx_cx, setDx_cx, setAx_cx, setDx_ax, setAx_ax]
    rw [high_withHigh (Nat.mod_lt _ (by decide)), high_withLow (Nat.mod_lt _ (by decide))]
  · simp only [headAndSector, setCx_bp, setAx_bp, setDx_bp]
  · constructor <;> simp [headAndSector]
  · apply Writes.none <;> simp [headAndSector]

/-- What `locate` leaves: the place of the sector, and the other registers. -/
structure Located (s s' : Cpu) : Prop where
  sector : ((high s'.cx + 256 * (low s'.cx / 64)) * 2 + high s'.dx) * 18 + (low s'.cx % 64 - 1) = s.ax
  bp : s'.bp = s.bp
  aside : Aside s s'
  writes : Writes (s.Below 2) s s'

theorem locate_spec (track : s.byte L.secPerTrk = 18) (small : s.ax / 18 < 256) (room : 2 ≤ s.sp)
    (inside : s.sp < 0xFFFE) : ∃ s', s.locate L = some s' ∧ Located s s' := by
  have divisor : low (withLow s.dx (s.byte L.secPerTrk)) = 18 := by
    rw [track, low, withLow]
    omega
  unfold locate
  generalize began : s.setDx (withLow s.dx (s.byte L.secPerTrk)) = s1
  have ax : s1.ax = s.ax := began ▸ rfl
  have same : Aside s s1 := began ▸ aside_setDx s _
  -- `div dl`: the quotient in al is the track, the remainder in ah the sector
  have divides : s1.divByte (low s1.dx) = some (s1.setAx (256 * (s.ax % 18) + s.ax / 18)) := by
    rw [← began, setDx_dx, divisor, divByte, setDx_ax, if_neg (by omega)]
  have halves := cylinder_spec (s := s1.setAx (256 * (s.ax % 18) + s.ax / 18)) (by rw [setAx_ax]; omega)
    (by rw [setAx_sp, same.sp]; exact room) (by rw [setAx_sp, same.sp]; exact inside)
  simp only [divides, Option.bind_eq_bind, Option.bind_some, Option.pure_def]
  generalize (s1.setAx (256 * (s.ax % 18) + s.ax / 18)).cylinder = s2 at halves ⊢
  obtain ⟨ax2, cx2, bp2, aside2, writes2⟩ := halves
  obtain ⟨dx3, cl3, ch3, bp3, aside3, writes3⟩ := headAndSector_spec s2
  generalize s2.headAndSector = s3 at dx3 cl3 ch3 bp3 aside3 writes3 ⊢
  rw [setAx_ax] at ax2 cx2
  refine ⟨_, rfl, ?_⟩
  -- track and head come from the quotient, the sector from the remainder
  constructor
  · have quotient : low s2.ax = s.ax / 18 := by rw [ax2, low_pack small]
    have remainder : high s2.ax = s.ax % 18 := by rw [ax2, high_pack small (by omega)]
    have track : high s3.cx = s.ax / 18 / 2 := by
      rw [ch3, cx2, low_pack small, high_withHigh (by omega)]
    have head : high (withLow s3.dx (s3.byte L.drvNum)) = s.ax / 18 % 2 := by
      rw [high_withLow (BitVec.isLt _), dx3, quotient]
    have sector : low s3.cx = s.ax % 18 + 1 := by
      rw [cl3, remainder]
      omega
    rw [setDx_cx, setDx_dx, head, track, sector]
    omega
  · rw [setDx_bp, bp3, bp2, setAx_bp, ← began, setDx_bp]
  · exact same.trans ((aside_setAx s1 _).trans (aside2.trans (aside3.trans (aside_setDx s3 _))))
  · have first : Writes (s.Below 2) s (s1.setAx (256 * (s.ax % 18) + s.ax / 18)) := by
      apply Writes.none <;> simp [← began]
    have area : (s1.setAx (256 * (s.ax % 18) + s.ax / 18)).Below 2 = s.Below 2 := by
      unfold Below
      rw [setAx_sp, same.sp]
    have last : Writes (s.Below 2) s3 (s3.setDx (withLow s3.dx (s3.byte L.drvNum))) := by
      apply Writes.none <;> simp
    rw [area] at writes2
    exact first.trans (writes2.trans ((writes3.mono fun _ => False.elim).trans last))

/-- The bytes that `n` sectors at `es:bx` take. -/
def Buffer (s : Cpu) (n : Nat) (a : Nat) : Prop := phys s.es s.bx ≤ a ∧ a < phys s.es s.bx + 512 * n

/-- `readSector` up to `LOOP_READ_SECTOR_FAIL`. -/
def loadRequest (L : Labels) (s : Cpu) : Option Cpu := do
  let s := s.push s.ax
  let s := s.push s.cx
  let s := s.setBp s.sp
  let s ← s.locate L
  return s.setAx (s.word (phys setupSeg s.bp))

/-- The end of `readSector`. -/
def restore (s : Cpu) : Cpu :=
  let s := s.drop.setCx s.top
  s.drop.setAx s.top

theorem readSector_eq : s.readSector d L =
    (s.loadRequest L).map fun s1 => ((s1.setAx (withHigh s1.ax 0x02)).int13 d).restore := by
  unfold readSector loadRequest
  simp only [Option.bind_eq_bind, Option.pure_def]
  cases (((s.push s.ax).push (s.push s.ax).cx).setBp ((s.push s.ax).push (s.push s.ax).cx).sp).locate L <;> rfl

/-- What stands in the registers and on the stack before the call: the count, the place of the sector, and
both arguments. -/
structure LoadedRequest (s s' : Cpu) : Prop where
  count : s'.ax = s.cx
  place : ((high s'.cx + 256 * (low s'.cx / 64)) * 2 + high s'.dx) * 18 + (low s'.cx % 64 - 1) = s.ax
  bx : s'.bx = s.bx
  si : s'.si = s.si
  di : s'.di = s.di
  es : s'.es = s.es
  sp : s'.sp = s.sp - 4
  top : s'.word (phys setupSeg (s.sp - 4)) = s.cx
  next : s'.word (phys setupSeg (s.sp - 2)) = s.ax
  writes : Writes (s.Below 6) s s'

theorem loadRequest_spec (track : s.byte L.secPerTrk = 18) (apart : L.secPerTrk + 6 < s.sp) (small : s.ax < 4608)
    (count : s.cx < 256) (inside : s.sp ≤ 0xA000) : ∃ s', s.loadRequest L = some s' ∧ LoadedRequest s s' := by
  have first := push_spec (s := s) (w := s.ax) (by omega) (by omega) (by omega)
  unfold loadRequest
  simp only []
  generalize s.push s.ax = s1 at first ⊢
  have second := push_spec (s := s1) (w := s1.cx) (by rw [first.sp]; omega) (by rw [first.sp]; omega)
    (by rw [first.cx]; omega)
  generalize s1.push s1.cx = s2 at second ⊢
  have sp : s2.sp = s.sp - 4 := by
    rw [second.sp, first.sp]
    omega
  have written : Writes (s.Below 4) s s2 := by
    have upper : Writes (s.Below 4) s s1 := first.writes.mono fun a stored => ⟨by unfold phys at *; omega, stored.2⟩
    refine upper.trans (second.writes.mono fun a stored => ?_)
    rw [first.sp] at stored
    unfold Below phys at *
    omega
  have track2 : (s2.setBp s2.sp).byte L.secPerTrk = 18 := by
    rw [← track, byte, byte, setBp_mem, written.kept]
    unfold Below phys
    omega
  obtain ⟨s3, located, spec⟩ := locate_spec (s := s2.setBp s2.sp) track2
    (by rw [setBp_ax, second.ax, first.ax]; omega) (by rw [setBp_sp]; omega) (by rw [setBp_sp]; omega)
  simp only [located, Option.bind_eq_bind, Option.bind_some, Option.pure_def]
  obtain ⟨sector, bp3, aside3, writes3⟩ := spec
  rw [setBp_bp] at bp3
  rw [setBp_ax, second.ax, first.ax] at sector
  have sp3 : s3.sp = s2.sp := aside3.sp
  have below3 : Writes (s.Below 6) s2 s3 := by
    have same : Writes (s.Below 6) s2 (s2.setBp s2.sp) := .none rfl rfl
    refine same.trans (writes3.mono fun a stored => ?_)
    unfold Below phys at *
    rw [setBp_sp] at stored
    omega
  -- what `locate` stores lies below both arguments
  have kept3 : ∀ a, phys setupSeg s2.sp ≤ a → s3.word a = s2.word a := by
    intro a above
    rw [writes3.word, word, setBp_mem, ← word]
    · unfold Below
      rw [setBp_sp]
      omega
    · unfold Below
      rw [setBp_sp]
      omega
  have count2 : s3.word (phys setupSeg s2.sp) = s.cx := by
    rw [kept3 _ (Nat.le_refl _), second.top, first.cx]
  have number2 : s3.word (phys setupSeg (s.sp - 2)) = s.ax := by
    rw [← first.sp, kept3 _ (by unfold phys; rw [sp, first.sp]; omega),
      second.writes.word (by unfold phys; omega) (by unfold phys; omega), first.top]
  refine ⟨_, rfl, ?_⟩
  constructor
  · rw [setAx_ax, bp3, count2]
  · rw [setAx_cx, setAx_dx, sector]
  · rw [setAx_bx, aside3.bx, setBp_bx, second.bx, first.bx]
  · rw [setAx_si, aside3.si, setBp_si, second.si, first.si]
  · rw [setAx_di, aside3.di, setBp_di, second.di, first.di]
  · rw [setAx_es, aside3.es, setBp_es, second.es, first.es]
  · rw [setAx_sp, sp3, sp]
  · rw [← sp, word, setAx_mem, ← word, count2]
  · rw [word, setAx_mem, ← word, number2]
  · have upper : Writes (s.Below 6) s s2 := written.mono fun a stored => by
      unfold Below phys at *
      omega
    exact (upper.trans below3).trans (.none (setAx_mem _ _) (setAx_stores _ _))

/-- What `readSector` leaves of the registers and of the memory. -/
structure ReadSector (d : Disk) (s s' : Cpu) : Prop where
  ax : s'.ax = s.ax
  cx : s'.cx = s.cx
  aside : Aside s s'
  data : ∀ a, s.Buffer s.cx a →
    s'.mem a = d (s.ax + (a - phys s.es s.bx) / 512) ((a - phys s.es s.bx) % 512)
  stored : ∀ a, s.Buffer s.cx a → a ∈ s'.stores
  writes : Writes (fun a => s.Buffer s.cx a ∨ s.Below 6 a) s s'

theorem readSector_spec (track : s.byte L.secPerTrk = 18) (apart : L.secPerTrk + 6 < s.sp) (small : s.ax < 4608)
    (count : s.cx < 256) (inside : s.sp ≤ 0xA000)
    (clear : ∀ a, s.Buffer s.cx a → a < phys setupSeg 0 ∨ phys setupSeg 0xA000 ≤ a) :
    ∃ s', s.readSector d L = some s' ∧ ReadSector d s s' := by
  obtain ⟨s3, loaded, request⟩ := loadRequest_spec (s := s) track apart small count inside
  rw [readSector_eq, loaded, Option.map_some]
  generalize began : s3.setAx (withHigh s3.ax 0x02) = s4
  have al : low s4.ax = s.cx := by
    rw [← began, setAx_ax, low_withHigh, request.count, low]
    omega
  have bx4 : s4.bx = s.bx := by rw [← began, setAx_bx, request.bx]
  have si4 : s4.si = s.si := by rw [← began, setAx_si, request.si]
  have di4 : s4.di = s.di := by rw [← began, setAx_di, request.di]
  have es4 : s4.es = s.es := by rw [← began, setAx_es, request.es]
  have sp4 : s4.sp = s.sp - 4 := by rw [← began, setAx_sp, request.sp]
  have mem4 : s4.mem = s3.mem := by rw [← began, setAx_mem]
  have before : Writes (s.Below 6) s s4 :=
    request.writes.trans (.none mem4 (by rw [← began, setAx_stores]))
  -- cylinder, head and sector name the sector that was asked for
  have place : ((high s4.cx + 256 * (low s4.cx / 64)) * 2 + high s4.dx) * 18 + (low s4.cx % 64 - 1) = s.ax := by
    rw [← request.place, ← began, setAx_cx, setAx_dx]
  -- al is still the count, so the bytes transferred are those of the buffer
  have area : ∀ a, (phys s4.es s4.bx ≤ a ∧ a < phys s4.es s4.bx + 512 * low s4.ax) ↔ s.Buffer s.cx a := by
    intro a
    rw [al, es4, bx4, Buffer]
  have read := (int13_writes d s4).mono fun a => (area a).mp
  have data : ∀ a, s.Buffer s.cx a →
      (s4.int13 d).mem a = d (s.ax + (a - phys s.es s.bx) / 512) ((a - phys s.es s.bx) % 512) := by
    intro a inside
    rw [← place, ← es4, ← bx4]
    exact if_pos ((area a).mpr inside)
  have stored : ∀ a, s.Buffer s.cx a → a ∈ (s4.int13 d).stores := by
    intro a inside
    obtain ⟨above, below⟩ := (area a).mpr inside
    refine List.mem_append_left _ (List.mem_map.mpr ⟨a - phys s4.es s4.bx, List.mem_range.mpr ?_, ?_⟩) <;> omega
  -- the buffer is outside the segment of the stack: the pushed registers are intact
  have top5 : (s4.int13 d).word (phys setupSeg (s.sp - 4)) = s.cx := by
    rw [read.word, word, mem4, ← word, request.top]
    · exact fun hit => by have := clear _ hit; unfold phys at this; omega
    · exact fun hit => by have := clear _ hit; unfold phys at this; omega
  have next5 : (s4.int13 d).word (phys setupSeg (s.sp - 2)) = s.ax := by
    rw [read.word, word, mem4, ← word, request.next]
    · exact fun hit => by have := clear _ hit; unfold phys at this; omega
    · exact fun hit => by have := clear _ hit; unfold phys at this; omega
  have aside5 := aside_int13 d s4
  generalize s4.int13 d = s5 at data stored top5 next5 aside5 read ⊢
  have sp5 : s5.sp = s.sp - 4 := aside5.sp.trans sp4
  have popped : (s5.drop.setCx s5.top).sp = s.sp - 2 := by
    rw [setCx_sp, drop_sp, sp5]
    omega
  have restored : (s5.drop.setCx s5.top).top = s.ax := by
    rw [top, popped, ← next5, word, word, setCx_mem, drop_mem]
  refine ⟨_, rfl, ?_⟩
  rw [restore]
  constructor
  · rw [setAx_ax, restored]
  · rw [setAx_cx, drop_cx, setCx_cx, top, sp5, top5]
  · constructor
    · rw [setAx_bx, drop_bx, setCx_bx, drop_bx, aside5.bx, bx4]
    · rw [setAx_si, drop_si, setCx_si, drop_si, aside5.si, si4]
    · rw [setAx_di, drop_di, setCx_di, drop_di, aside5.di, di4]
    · rw [setAx_sp, drop_sp, popped]
      omega
    · rw [setAx_es, drop_es, setCx_es, drop_es, aside5.es, es4]
  · rw [setAx_mem, drop_mem, setCx_mem, drop_mem]
    exact data
  · rw [setAx_stores, drop_stores, setCx_stores, drop_stores]
    exact stored
  · have both := (before.mono fun _ => Or.inr).trans (read.mono fun _ => Or.inl)
    apply both.trans
    apply Writes.none <;> simp

end ReadSector

section ReadFATValue

variable {d : Disk} {L : Labels} {s : Cpu}

theorem entryOffset_spec (small : 3 * s.ax / 2 < 0x10000) : ∃ s', s.entryOffset L = some s' ∧
    s'.ax = 3 * s.ax / 2 ∧ s'.es = bufferFatAddress ∧ s'.byte L.evenOrOdd = s.ax % 2 ∧
    s'.si = s.si ∧ s'.di = s.di ∧ s'.sp = s.sp ∧ Writes (fun a => a = phys setupSeg L.evenOrOdd) s s' := by
  unfold entryOffset
  simp only [setDx_dx, setBx_bx]
  generalize began : ((s.setDx bufferFatAddress).setEs bufferFatAddress).store (phys setupSeg L.evenOrOdd) 0 = s1
  have ax1 : s1.ax = s.ax := began ▸ rfl
  -- `EVEN_OR_ODD` is 0 before the division
  have cleared : Writes (fun a => a = phys setupSeg L.evenOrOdd) s s1 := by
    have same : Writes (fun a => a = phys setupSeg L.evenOrOdd) s
        ((s.setDx bufferFatAddress).setEs bufferFatAddress) := .none rfl rfl
    rw [← began]
    exact same.trans (store_writes _ _ 0)
  have low1 : s1.mem (phys setupSeg L.evenOrOdd) = 0 := by
    rw [← began, store_mem, Function.update_self]
  -- the offset of the entry is one and a half bytes times its number
  have divides : (((s1.setBx 3).mulWord 3).setBx 2).divWord 2 =
      some (((((s1.setBx 3).mulWord 3).setBx 2).setAx (3 * s.ax / 2)).setDx (3 * s.ax % 2)) := by
    rw [divWord]
    simp only [mulWord, setBx_dx, setDx_dx, setBx_ax, setDx_ax, setAx_ax, ax1]
    have product : 0x10000 * (s.ax * 3 / 0x10000) + s.ax * 3 % 0x10000 = 3 * s.ax := by omega
    rw [product, if_neg (by omega)]
  simp only [divides, Option.bind_eq_bind, Option.bind_some, Option.pure_def, setDx_dx]
  generalize last : (((((s1.setBx 3).mulWord 3).setBx 2).setAx (3 * s.ax / 2)).setDx (3 * s.ax % 2)) = s2
  have same : s2.mem = s1.mem ∧ s2.stores = s1.stores ∧ s2.ax = 3 * s.ax / 2 ∧ s2.es = bufferFatAddress ∧
      s2.si = s.si ∧ s2.di = s.di ∧ s2.sp = s.sp := by
    rw [← last, ← began]
    simp [mulWord]
  obtain ⟨mem2, stores2, ax2, es2, si2, di2, sp2⟩ := same
  have before : Writes (fun a => a = phys setupSeg L.evenOrOdd) s s2 := cleared.trans (.none mem2 stores2)
  refine ⟨_, rfl, ?_⟩
  split
  next even =>
    refine ⟨ax2, es2, ?_, si2, di2, sp2, before⟩
    rw [byte, mem2, low1]
    change 0 = s.ax % 2
    omega
  -- an odd number leaves a remainder, and the flag is set
  next odd =>
    simp only [store_ax, store_es, store_si, store_di, store_sp]
    refine ⟨ax2, es2, ?_, si2, di2, sp2, before.trans ?_⟩
    · rw [byte, store_mem, Function.update_self]
      change 1 = s.ax % 2
      omega
    · exact store_writes s2 _ 1

theorem entrySector_spec (size : s.word (phys setupSeg L.bytsPerSec) = 512) (small : s.ax < 0x10000) :
    ∃ s', s.entrySector L = some s' ∧ s'.ax = s.ax / 512 ∧ s'.dx = s.ax % 512 ∧ s'.es = s.es ∧
    s'.si = s.si ∧ s'.di = s.di ∧ s'.sp = s.sp ∧ s'.mem = s.mem ∧ s'.stores = s.stores := by
  have divides : ((s.setDx 0).setBx 512).divWord 512 =
      some ((((s.setDx 0).setBx 512).setAx (s.ax / 512)).setDx (s.ax % 512)) := by
    rw [divWord]
    simp only [setBx_dx, setDx_dx, setBx_ax, setDx_ax]
    rw [if_neg (by omega), Nat.mul_zero, Nat.zero_add]
  have size2 : (s.setDx 0).word (phys setupSeg L.bytsPerSec) = 512 := by
    rw [← size, word, word, setDx_mem]
  refine ⟨(((s.setDx 0).setBx 512).setAx (s.ax / 512)).setDx (s.ax % 512), ?_, ?_⟩
  · rw [← divides, entrySector]
    simp only [size2, setBx_bx]
  · simp

/-- What is on the stack over the word that `entryWord` takes off first. -/
theorem entryWord_spec (room : s.sp < 0xA000) (small : s.bx + s.top < 0x10000) :
    s.entryWord.ax = s.word (phys s.es (s.bx + s.top)) ∧ s.entryWord.bx = s.word (phys setupSeg (s.sp + 2)) ∧
      s.entryWord.es = s.word (phys setupSeg (s.sp + 4)) ∧ s.entryWord.sp = s.sp + 6 ∧
      s.entryWord.si = s.si ∧ s.entryWord.di = s.di ∧ s.entryWord.mem = s.mem ∧ s.entryWord.stores = s.stores := by
  have sp1 : (s.sp + 2) % 0x10000 = s.sp + 2 := Nat.mod_eq_of_lt (by omega)
  have sp2 : (s.sp + 2 + 2) % 0x10000 = s.sp + 4 := Nat.mod_eq_of_lt (by omega)
  have sp3 : (s.sp + 4 + 2) % 0x10000 = s.sp + 6 := Nat.mod_eq_of_lt (by omega)
  unfold entryWord
  simp only []
  generalize s.top = x at small ⊢
  have sum : (s.bx + x) % 0x10000 = s.bx + x := Nat.mod_eq_of_lt small
  simp [Cpu.top, word, sp1, sp2, sp3, sum]

/-- The next cluster: twelve bits from the bytes at one and a half of the number. -/
def fatEntry (d : Disk) (c : Nat) : Nat :=
  let o := 3 * c / 2
  let w := (d (fatSectorStart + o / 512) (o % 512)).toNat +
    256 * (d (fatSectorStart + (o + 1) / 512) ((o + 1) % 512)).toNat
  if c % 2 = 0 then w % 0x1000 else w / 16

/-- Where `readFATValue` writes. -/
def FatArea (L : Labels) (s : Cpu) (a : Nat) : Prop :=
  a = phys setupSeg L.evenOrOdd ∨ (0x9B200 ≤ a ∧ a < 0x9B600) ∨ s.Below 12 a

structure ReadFATValue (d : Disk) (L : Labels) (s s' : Cpu) : Prop where
  ax : s'.ax = fatEntry d s.ax
  aside : Aside s s'
  writes : Writes (s.FatArea L) s s'

/-- The header of `setup` lies outside. -/
theorem header_outside (placed : L.Placed) (stack : L.topOfStack ≤ s.sp + 100) {off : Nat}
    (before : off < L.evenOrOdd) :
    ¬ s.FatArea L (phys setupSeg off) := by
  obtain ⟨header, track', order, text, image⟩ := placed
  unfold FatArea Below phys setupSeg
  omega

/-- `readFATValue` up to the call of `readSector`. -/
def requestEntry (L : Labels) (s : Cpu) : Option Cpu := do
  let s := s.push s.es
  let s := s.push s.bx
  let s ← s.entryOffset L
  let s ← s.entrySector L
  let s := s.push s.dx
  let s := s.setAx ((s.ax + fatSectorStart) % 0x10000)
  let s := s.setCx 2
  return s.setBx bufferFatOffset

/-- `readFATValue` after the call of `readSector`. -/
def takeEntry (L : Labels) (s : Cpu) : Cpu :=
  let s := s.entryWord
  if s.byte L.evenOrOdd = 0 then s.setAx (s.ax % 0x1000) else s.setAx (s.ax / 16)

theorem readFATValue_eq : s.readFATValue d L =
    (s.requestEntry L).bind fun s1 => (s1.readSector d L).map (takeEntry L) := by
  unfold readFATValue requestEntry
  simp only [Option.bind_eq_bind, Option.pure_def, Option.bind_assoc, Option.bind_some]
  simp only [Option.map_eq_bind, Function.comp_def, takeEntry]

/-- Two sectors of the table are asked for; the offset of the entry and the saved registers are on the stack. -/
structure RequestedEntry (L : Labels) (s s' : Cpu) : Prop where
  ax : s'.ax = fatSectorStart + 3 * s.ax / 2 / 512
  cx : s'.cx = 2
  start : phys s'.es s'.bx = 0x9B200
  bx : s'.bx = bufferFatOffset
  es : s'.es = bufferFatAddress
  si : s'.si = s.si
  di : s'.di = s.di
  sp : s'.sp = s.sp - 6
  offset : s'.word (phys setupSeg (s.sp - 6)) = 3 * s.ax / 2 % 512
  savedBx : s'.word (phys setupSeg (s.sp - 4)) = s.bx
  savedEs : s'.word (phys setupSeg (s.sp - 2)) = s.es
  odd : s'.byte L.evenOrOdd = s.ax % 2
  writes : Writes (s.FatArea L) s s'

theorem requestEntry_spec (placed : L.Placed) (size : s.word (phys setupSeg L.bytsPerSec) = 512)
    (small : 3 * s.ax / 2 < 0x10000) (bx : s.bx < 0x10000) (es : s.es < 0x10000)
    (stack : L.topOfStack ≤ s.sp + 100) (inside : s.sp ≤ 0xA000) :
    ∃ s', s.requestEntry L = some s' ∧ RequestedEntry L s s' := by
  have outside : ∀ {off : Nat}, off < L.evenOrOdd → ¬ s.FatArea L (phys setupSeg off) := header_outside placed stack
  obtain ⟨header, track', order, text, image⟩ := placed
  have first := push_spec (s := s) (w := s.es) (by omega) (by omega) es
  unfold requestEntry
  simp only []
  generalize s.push s.es = s1 at first ⊢
  have second := push_spec (s := s1) (w := s1.bx) (by rw [first.sp]; omega) (by rw [first.sp]; omega)
    (by rw [first.bx]; exact bx)
  generalize s1.push s1.bx = s2 at second ⊢
  have sp1 := first.sp
  have sp2 : s2.sp = s.sp - 4 := by
    rw [second.sp, sp1]
    omega
  obtain ⟨s3, offset, ax3, es3, odd3, si3, di3, sp3, writes3⟩ :=
    entryOffset_spec (L := L) (s := s2) (by rw [second.ax, first.ax]; omega)
  rw [second.ax, first.ax] at ax3 odd3
  have before3 : Writes (s.FatArea L) s s3 := by
    have upper : Writes (s.FatArea L) s s1 := first.writes.mono fun a stored => by
      unfold FatArea Below phys at *
      omega
    have lower : Writes (s.FatArea L) s1 s2 := second.writes.mono fun a stored => by
      rw [sp1] at stored
      unfold FatArea Below phys at *
      omega
    exact upper.trans (lower.trans (writes3.mono fun a => Or.inl))
  have size3 : s3.word (phys setupSeg L.bytsPerSec) = 512 := by
    rw [before3.word (outside (by omega)) (@outside (L.bytsPerSec + 1) (by omega)), size]
  obtain ⟨s4, sector, ax4, dx4, es4, si4, di4, sp4, mem4, stores4⟩ :=
    entrySector_spec (L := L) (s := s3) size3 (by rw [ax3]; omega)
  simp only [offset, sector, Option.bind_eq_bind, Option.bind_some, Option.pure_def]
  rw [ax3] at ax4 dx4
  rw [sp3, sp2] at sp4
  have third := push_spec (s := s4) (w := s4.dx) (by rw [sp4]; omega) (by rw [sp4]; omega) (by rw [dx4]; omega)
  generalize s4.push s4.dx = s5 at third ⊢
  have sp5 : s5.sp = s.sp - 6 := by
    rw [third.sp, sp4]
    omega
  have before5 : Writes (s.FatArea L) s s5 := by
    have lower : Writes (s.FatArea L) s4 s5 := third.writes.mono fun a stored => by
      rw [sp4] at stored
      unfold FatArea Below phys at *
      omega
    exact before3.trans ((Writes.none mem4 stores4).trans lower)
  have next : (s5.ax + fatSectorStart) % 0x10000 = fatSectorStart + 3 * s.ax / 2 / 512 := by
    rw [third.ax, ax4, fatSectorStart]
    omega
  -- only the flag is written between the second push and the third
  have kept : ∀ a, phys setupSeg s2.sp ≤ a → s5.word a = s2.word a := by
    intro a above
    rw [sp2] at above
    rw [third.writes.word, word, mem4, ← word, writes3.word]
    all_goals
      unfold phys at *
      omega
  rw [next]
  refine ⟨_, rfl, ?_⟩
  constructor
  · rw [setBx_ax, setCx_ax, setAx_ax]
  · rw [setBx_cx, setCx_cx]
  · rw [setBx_es, setCx_es, setAx_es, setBx_bx, third.es, es4, es3]
    rfl
  · rw [setBx_bx]
  · rw [setBx_es, setCx_es, setAx_es, third.es, es4, es3]
  · rw [setBx_si, setCx_si, setAx_si, third.si, si4, si3, second.si, first.si]
  · rw [setBx_di, setCx_di, setAx_di, third.di, di4, di3, second.di, first.di]
  · rw [setBx_sp, setCx_sp, setAx_sp, sp5]
  · rw [word, setBx_mem, setCx_mem, setAx_mem, ← word, ← sp5, third.top, dx4]
  · rw [word, setBx_mem, setCx_mem, setAx_mem, ← word, ← sp2, kept _ (Nat.le_refl _), second.top, first.bx]
  · rw [word, setBx_mem, setCx_mem, setAx_mem, ← word, ← sp1, kept, second.writes.word, first.top]
    all_goals
      unfold phys
      omega
  · rw [byte, setBx_mem, setCx_mem, setAx_mem, ← odd3, byte, third.writes.kept, mem4]
    unfold phys
    omega
  · exact before5.trans (.none rfl rfl)

theorem readFATValue_spec (placed : L.Placed) (track : s.byte L.secPerTrk = 18)
    (size : s.word (phys setupSeg L.bytsPerSec) = 512) (small : 3 * s.ax / 2 < 0x10000) (bx : s.bx < 0x10000)
    (es : s.es < 0x10000) (stack : L.topOfStack ≤ s.sp + 100) (inside : s.sp ≤ 0xA000) :
    ∃ s', s.readFATValue d L = some s' ∧ ReadFATValue d L s s' := by
  obtain ⟨s1, asked, request⟩ := requestEntry_spec placed size small bx es stack inside
  have track1 : s1.byte L.secPerTrk = 18 := by
    have before : L.secPerTrk < L.evenOrOdd := by
      have := placed.secPerTrk
      omega
    rw [← track, byte, byte, request.writes.kept _ (header_outside placed stack before)]
  obtain ⟨header, track', order, text, image⟩ := placed
  have start := request.start
  have sp1 := request.sp
  obtain ⟨s2, done, read⟩ := readSector_spec (d := d) (s := s1) track1 (by rw [sp1]; omega)
    (by rw [request.ax, fatSectorStart]; omega) (by rw [request.cx]; decide) (by rw [sp1]; omega) fun a hit => by
      unfold Buffer at hit
      rw [start] at hit
      exact .inr (Nat.le_trans (by decide) hit.1)
  rw [readFATValue_eq, asked, Option.bind_some, done, Option.map_some]
  have sp2 : s2.sp = s.sp - 6 := read.aside.sp.trans sp1
  have before : Writes (s.FatArea L) s s2 := by
    refine request.writes.trans (read.writes.mono fun a stored => ?_)
    unfold Buffer at stored
    rw [start, request.cx] at stored
    unfold FatArea Below phys at *
    rw [sp1] at stored
    omega
  -- the three words on the stack
  have kept : ∀ a, phys setupSeg (s.sp - 6) ≤ a → a + 1 < 0x9B200 → s2.word a = s1.word a := by
    intro a above below
    have apart : ∀ x, phys setupSeg (s.sp - 6) ≤ x → x < 0x9B200 → ¬ (s1.Buffer s1.cx x ∨ s1.Below 6 x) := by
      intro x above below
      unfold Buffer Below
      rw [start, sp1]
      omega
    rw [read.writes.word (apart a above (by omega)) (apart _ (by omega) below)]
  have top : s2.top = 3 * s.ax / 2 % 512 := by
    rw [Cpu.top, sp2, kept _ (Nat.le_refl _) (by unfold phys setupSeg; omega), request.offset]
  have savedBx : s2.word (phys setupSeg (s2.sp + 2)) = s.bx := by
    have upper : s2.sp + 2 = s.sp - 4 := by omega
    rw [upper, kept _ (by unfold phys; omega) (by unfold phys setupSeg; omega), request.savedBx]
  have savedEs : s2.word (phys setupSeg (s2.sp + 4)) = s.es := by
    have upper : s2.sp + 4 = s.sp - 2 := by omega
    rw [upper, kept _ (by unfold phys; omega) (by unfold phys setupSeg; omega), request.savedEs]
  have bx2 : s2.bx = 0x200 := by rw [read.aside.bx, request.bx, bufferFatOffset]
  have place : phys s2.es (s2.bx + s2.top) = 0x9B200 + 3 * s.ax / 2 % 512 := by
    rw [read.aside.es, request.es, bx2, top]
    unfold phys bufferFatAddress
    omega
  have data : ∀ i, i < 1024 → s2.mem (0x9B200 + i) =
      d (fatSectorStart + 3 * s.ax / 2 / 512 + i / 512) (i % 512) := by
    intro i inside
    rw [read.data, start, request.ax, Nat.add_sub_cancel_left]
    unfold Buffer
    rw [start, request.cx]
    omega
  have odd : s2.byte L.evenOrOdd = s.ax % 2 := by
    rw [← request.odd, byte, byte, read.writes.kept]
    unfold Buffer Below
    rw [start, sp1]
    unfold phys setupSeg
    omega
  obtain ⟨ax3, bx3, es3, sp3, si3, di3, mem3, stores3⟩ :=
    entryWord_spec (s := s2) (by rw [sp2]; omega) (by rw [bx2, top]; omega)
  rw [savedBx] at bx3
  rw [savedEs] at es3
  have value : s2.entryWord.ax = (d (fatSectorStart + 3 * s.ax / 2 / 512) (3 * s.ax / 2 % 512)).toNat +
      256 * (d (fatSectorStart + (3 * s.ax / 2 + 1) / 512) ((3 * s.ax / 2 + 1) % 512)).toNat := by
    have second : fatSectorStart + 3 * s.ax / 2 / 512 + (3 * s.ax / 2 % 512 + 1) / 512 =
        fatSectorStart + (3 * s.ax / 2 + 1) / 512 := by omega
    rw [ax3, place, word, data _ (by omega), Nat.add_assoc 0x9B200, data _ (by omega), second,
      Nat.div_eq_of_lt (Nat.mod_lt _ (by decide)), Nat.mod_mod, Nat.mod_add_mod, Nat.add_zero]
  have odd3 : s2.entryWord.byte L.evenOrOdd = s.ax % 2 := by rw [byte, mem3, ← byte, odd]
  have last : Writes (s.FatArea L) s s2.entryWord := before.trans (.none mem3 stores3)
  have aside : Aside s s2.entryWord := by
    constructor
    · exact bx3
    · rw [si3, read.aside.si, request.si]
    · rw [di3, read.aside.di, request.di]
    · rw [sp3, sp2]
      omega
    · exact es3
  unfold takeEntry
  simp only []
  generalize s2.entryWord = s3 at value odd3 last aside ⊢
  refine ⟨_, rfl, ?_⟩
  rw [odd3]
  split
  next even =>
    refine ⟨?_, aside.trans (aside_setAx _ _), last.trans (.none rfl rfl)⟩
    simp only [setAx_ax, value, fatEntry, if_pos even]
  next odd =>
    refine ⟨?_, aside.trans (aside_setAx _ _), last.trans (.none rfl rfl)⟩
    simp only [setAx_ax, value, fatEntry, if_neg odd]

end ReadFATValue

section Display

variable {s : Cpu}

/-- The bytes of the screen for one character at `di`. -/
def Cell (s : Cpu) (a : Nat) : Prop := phys screenSeg s.di ≤ a ∧ a < phys screenSeg s.di + 2

/-- A text of one character. -/
theorem displayLoop_one (fuel : Nat) (char : s.byte s.si ≠ 0) (stop : s.byte (s.si + 1) = 0) (text : s.si < 0xA000)
    (screen : s.di < 0x8000) : ∃ s', s.displayLoop (fuel + 2) = some s' ∧ s'.bx = s.bx ∧ s'.di = s.di + 2 ∧
      s'.es = s.es ∧ s'.sp = s.sp ∧ Writes s.Cell s s' := by
  have si : (s.si + 1) % 0x10000 = s.si + 1 := Nat.mod_eq_of_lt (by omega)
  have di : (s.di + 2) % 0x10000 = s.di + 2 := Nat.mod_eq_of_lt (by omega)
  have lowChar : low (withLow s.ax (s.byte s.si)) = s.byte s.si := low_withLow (BitVec.isLt _)
  rw [displayLoop]
  simp only [setAx_ax, lowChar, if_neg char, setAx_si, setAx_di, si, di]
  have stored := storeWord_writes (s.setAx (withLow s.ax (s.byte s.si))) (phys screenSeg s.di)
    (withLow s.ax (s.byte s.si))
  have same := aside_storeWord (s.setAx (withLow s.ax (s.byte s.si))) (phys screenSeg s.di)
    (withLow s.ax (s.byte s.si))
  generalize (s.setAx (withLow s.ax (s.byte s.si))).storeWord (phys screenSeg s.di) _ = s1 at stored same ⊢
  have written : Writes s.Cell s s1 := by
    have first : Writes s.Cell s (s.setAx (withLow s.ax (s.byte s.si))) := .none rfl rfl
    refine first.trans (stored.mono fun a here => ?_)
    unfold Cell
    omega
  -- the character went to the screen, so the string still ends after it
  have zero : ((s1.setSi (s.si + 1)).setDi (s.di + 2)).byte (s.si + 1) = 0 := by
    rw [← stop, byte, byte, setDi_mem, setSi_mem, written.kept]
    unfold Cell phys setupSeg screenSeg
    omega
  rw [displayLoop]
  simp only [setDi_si, setSi_si, zero, setAx_ax]
  rw [if_pos (low_withLow (by decide))]
  refine ⟨_, rfl, ?_, ?_, ?_, ?_, ?_⟩
  · rw [setAx_bx, setDi_bx, setSi_bx, same.bx, setAx_bx]
  · rw [setAx_di, setDi_di]
  · rw [setAx_es, setDi_es, setSi_es, same.es, setAx_es]
  · rw [setAx_sp, setDi_sp, setSi_sp, same.sp, setAx_sp]
  · apply written.trans
    apply Writes.none <;> simp

theorem displayString_spec (char : s.byte s.si ≠ 0) (stop : s.byte (s.si + 1) = 0) (text : s.si + 4 < s.sp)
    (screen : s.di < 0x8000) (small : s.ax < 0x10000) (inside : s.sp < 0xA000) :
    ∃ s', s.displayString = some s' ∧ s'.ax = s.ax ∧ s'.bx = s.bx ∧ s'.di = s.di + 2 ∧ s'.es = s.es ∧
      s'.sp = s.sp ∧ Writes (fun a => s.Cell a ∨ s.Below 2 a) s s' := by
  have pushed := push_spec (s := s) (w := s.ax) (by omega) (by omega) small
  unfold displayString
  simp only []
  generalize s.push s.ax = s1 at pushed ⊢
  have same : ∀ off, off + 2 < s.sp → s1.byte off = s.byte off := by
    intro off before
    rw [byte, byte, pushed.writes.kept]
    unfold phys
    omega
  obtain ⟨s2, shown, bx2, di2, es2, sp2, writes2⟩ := displayLoop_one (s := s1.setAx (withHigh s1.ax 0x0F)) 0xFFFE
    (by
      rw [setAx_si, pushed.si, byte, setAx_mem, ← byte, same _ (by omega)]
      exact char)
    (by rw [setAx_si, pushed.si, byte, setAx_mem, ← byte, same _ (by omega), stop])
    (by rw [setAx_si, pushed.si]; omega) (by rw [setAx_di, pushed.di]; exact screen)
  simp only [shown, Option.bind_eq_bind, Option.bind_some, Option.pure_def]
  have cell : (s1.setAx (withHigh s1.ax 0x0F)).Cell = s.Cell := by
    unfold Cell
    rw [setAx_di, pushed.di]
  rw [cell] at writes2
  rw [setAx_sp, pushed.sp] at sp2
  -- screen memory is not in the segment of the stack
  have restored : s2.top = s.ax := by
    rw [Cpu.top, sp2, ← pushed.top, pushed.sp, writes2.word, word, setAx_mem, ← word]
    · unfold Cell phys setupSeg screenSeg
      omega
    · unfold Cell phys setupSeg screenSeg
      omega
  refine ⟨_, rfl, ?_, ?_, ?_, ?_, ?_, ?_⟩
  · rw [setAx_ax, restored]
  · rw [setAx_bx, drop_bx, bx2, setAx_bx, pushed.bx]
  · rw [setAx_di, drop_di, di2, setAx_di, pushed.di]
  · rw [setAx_es, drop_es, es2, setAx_es, pushed.es]
  · rw [setAx_sp, drop_sp, sp2]
    omega
  · have first : Writes (fun a => s.Cell a ∨ s.Below 2 a) s (s1.setAx (withHigh s1.ax 0x0F)) :=
      (pushed.writes.mono fun _ => Or.inr).trans (.none (setAx_mem _ _) (setAx_stores _ _))
    apply (first.trans (writes2.mono fun _ => Or.inl)).trans
    apply Writes.none <;> simp

end Display

end Cpu

end OperatorSystem.Boot
