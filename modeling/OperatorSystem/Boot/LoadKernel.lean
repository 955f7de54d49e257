import OperatorSystem.Boot.Setup

/-!
# Where the kernel is loaded

One round loads a cluster and moves on. The runs over a whole chain follow by
induction, for any number of clusters, with the place where the code really
puts each of them (`target`).
-/

namespace OperatorSystem.Boot

/-- The FAT buffer, the text screen, and the variables and the stack of `setup`. -/
def Labels.Scratch (L : Labels) (a : Nat) : Prop :=
  a = phys setupSeg L.evenOrOdd ∨ (0x9B200 ≤ a ∧ a < 0x9B600) ∨ (0xB8000 ≤ a ∧ a < 0xB8FA0) ∨
    (phys setupSeg (L.topOfStack - 256) ≤ a ∧ a < phys setupSeg L.topOfStack)

namespace Cpu

/-- The stack is empty, and the header and the text of `setup` are in memory. -/
structure Ready (L : Labels) (s : Cpu) : Prop where
  sp : s.sp = L.topOfStack
  track : s.byte L.secPerTrk = 18
  size : s.word (phys setupSeg L.bytsPerSec) = 512
  dot : s.byte L.stringLoadingKernel ≠ 0
  stop : s.byte (L.stringLoadingKernel + 1) = 0

section Round

variable {d : Disk} {L : Labels} {s s' : Cpu} {area : Nat → Prop}

/-- Where a round writes: the sector and the scratch areas. -/
def RoundArea (L : Labels) (s : Cpu) (a : Nat) : Prop := s.Buffer 1 a ∨ L.Scratch a

/-- The header and the text of `setup` lie outside. -/
theorem round_outside (placed : L.Placed) (clear : phys s.es s.bx + 512 ≤ 0x90000) {off : Nat}
    (before : off ≤ L.stringLoadingKernel + 1) (other : off ≠ L.evenOrOdd) :
    ¬ s.RoundArea L (phys setupSeg off) := by
  obtain ⟨header, track', order, text, image⟩ := placed
  unfold RoundArea Buffer Labels.Scratch
  unfold phys setupSeg at *
  omega

theorem Ready.writes (ready : Ready L s) (placed : L.Placed) (clear : phys s.es s.bx + 512 ≤ 0x90000)
    (writes : Writes (s.RoundArea L) s s') (sp : s'.sp = s.sp) : Ready L s' := by
  have outside : ∀ {off : Nat}, off ≤ L.stringLoadingKernel + 1 → off ≠ L.evenOrOdd →
      ¬ s.RoundArea L (phys setupSeg off) := round_outside placed clear
  obtain ⟨header, track', order, text, image⟩ := placed
  constructor
  · exact sp.trans ready.sp
  · rw [byte, writes.kept _ (outside (by omega) (by omega)), ← byte, ready.track]
  · rw [writes.word (outside (by omega) (by omega)) (@outside (L.bytsPerSec + 1) (by omega) (by omega)),
      ready.size]
  · rw [byte, writes.kept _ (outside (by omega) (by omega)), ← byte]
    exact ready.dot
  · rw [byte, writes.kept _ (outside (by omega) (by omega)), ← byte, ready.stop]

theorem Ready.same (ready : Ready L s) (sp : s'.sp = s.sp) (mem : s'.mem = s.mem) : Ready L s' := by
  obtain ⟨sp0, track, size, dot, stop⟩ := ready
  refine ⟨sp.trans sp0, ?_, ?_, ?_, ?_⟩
  · rw [byte, mem, ← byte, track]
  · rw [word, mem, ← word, size]
  · rw [byte, mem, ← byte]
    exact dot
  · rw [byte, mem, ← byte, stop]

structure Loaded (d : Disk) (L : Labels) (s s' : Cpu) : Prop where
  ax : s'.ax = fatEntry d s.ax
  bx : s'.bx = s.bx
  es : s'.es = s.es
  di : s'.di = s.di + 2
  ready : Ready L s'
  data : ∀ j, j < 512 → s'.mem (phys s.es s.bx + j) = d (s.ax + dataSectorStart) j
  stored : phys s.es s.bx ∈ s'.stores
  writes : Writes (s.RoundArea L) s s'

/-- The sector of the cluster is in memory, and the number of the cluster on the stack. -/
structure Fetched (d : Disk) (L : Labels) (s s' : Cpu) : Prop where
  ax : s'.ax < 0x10000
  bx : s'.bx = s.bx
  es : s'.es = s.es
  di : s'.di = s.di
  sp : s'.sp = L.topOfStack - 2
  top : s'.word (phys setupSeg (L.topOfStack - 2)) = s.ax
  data : ∀ j, j < 512 → s'.mem (phys s.es s.bx + j) = d (s.ax + dataSectorStart) j
  stored : phys s.es s.bx ∈ s'.stores
  writes : Writes (s.RoundArea L) s s'

theorem fetch_spec (placed : L.Placed) (ready : Ready L s) (small : s.ax < 0xFF7)
    (clear : phys s.es s.bx + 512 ≤ 0x90000) :
    ∃ s', (((s.push s.ax).setAx (((s.push s.ax).ax + dataSectorStart) % 0x10000)).setCx 1).readSector d L = some s' ∧
      Fetched d L s s' := by
  obtain ⟨header, track', order, text, image⟩ := id placed
  have sp := ready.sp
  have pushed := push_spec (s := s) (w := s.ax) (by omega) (by omega) (by omega)
  generalize s.push s.ax = s1 at pushed ⊢
  have sp1 := pushed.sp
  have number : (s1.ax + dataSectorStart) % 0x10000 = s.ax + dataSectorStart := by
    rw [pushed.ax, dataSectorStart]
    omega
  rw [number]
  generalize began : (s1.setAx (s.ax + dataSectorStart)).setCx 1 = s2
  have ax2 : s2.ax = s.ax + dataSectorStart := began ▸ rfl
  have cx2 : s2.cx = 1 := began ▸ rfl
  have aside2 : Aside s1 s2 := began ▸ (aside_setAx _ _).trans (aside_setCx _ _)
  -- the saved cluster number is in the scratch area below the stack
  have before2 : Writes (s.RoundArea L) s s2 := by
    have first : Writes (s.RoundArea L) s s1 := pushed.writes.mono fun a stored => by
      unfold RoundArea Labels.Scratch phys at *
      omega
    exact first.trans (.none (by rw [← began, setCx_mem, setAx_mem]) (by rw [← began, setCx_stores, setAx_stores]))
  have place : phys s2.es s2.bx = phys s.es s.bx := by rw [aside2.es, aside2.bx, pushed.es, pushed.bx]
  have buffer : s2.Buffer s2.cx = s.Buffer 1 := by
    unfold Buffer
    rw [place, cx2]
  have track2 : s2.byte L.secPerTrk = 18 := by
    rw [byte, before2.kept _ (round_outside placed clear (by omega) (by omega)), ← byte, ready.track]
  have sp2 : s2.sp = L.topOfStack - 2 := by rw [aside2.sp, sp1, sp]
  -- the sector goes to a place below `setup`
  obtain ⟨s3, done, read⟩ := readSector_spec (d := d) (s := s2) track2 (by omega)
    (by rw [ax2, dataSectorStart]; omega) (by rw [cx2]; decide) (by omega) fun a hit => by
      rw [buffer] at hit
      unfold Buffer phys setupSeg at *
      omega
  refine ⟨s3, done, ?_⟩
  constructor
  · rw [read.ax, ax2, dataSectorStart]
    omega
  · rw [read.aside.bx, aside2.bx, pushed.bx]
  · rw [read.aside.es, aside2.es, pushed.es]
  · rw [read.aside.di, aside2.di, pushed.di]
  · rw [read.aside.sp, sp2]
  · -- the sector was not written over the stack
    rw [read.writes.word, word, ← began, setCx_mem, setAx_mem, ← word, ← sp, ← sp1, pushed.top]
    · rw [buffer]
      unfold Buffer Below phys setupSeg at *
      omega
    · rw [buffer]
      unfold Buffer Below phys setupSeg at *
      omega
  · intro j inside
    have here : s.Buffer 1 (phys s.es s.bx + j) := by
      unfold Buffer
      omega
    have offset : phys s.es s.bx + j - phys s2.es s2.bx = j := by omega
    rw [read.data _ (by rw [buffer]; exact here), offset, ax2, Nat.div_eq_of_lt inside, Nat.mod_eq_of_lt inside,
      Nat.add_zero]
  · have here : s.Buffer 1 (phys s.es s.bx) := by
      unfold Buffer
      omega
    exact read.stored _ (by rw [buffer]; exact here)
  · refine before2.trans (read.writes.mono fun a stored => ?_)
    rw [buffer] at stored
    refine stored.imp_right fun below => ?_
    unfold Labels.Scratch Below phys at *
    omega

/-- The cluster is in memory and its dot on the screen, and `ax` has the number of the cluster again. -/
structure Shown (d : Disk) (L : Labels) (s s' : Cpu) : Prop where
  ax : s'.ax = s.ax
  bx : s'.bx = s.bx
  es : s'.es = s.es
  di : s'.di = s.di + 2
  sp : s'.sp = L.topOfStack
  data : ∀ j, j < 512 → s'.mem (phys s.es s.bx + j) = d (s.ax + dataSectorStart) j
  stored : phys s.es s.bx ∈ s'.stores
  writes : Writes (s.RoundArea L) s s'

theorem show_spec (placed : L.Placed) (ready : Ready L s) (clear : phys s.es s.bx + 512 ≤ 0x90000)
    (screen : s.di + 2 ≤ 0xFA0) (fetched : Fetched d L s s') :
    ∃ s₁, (s'.setSi L.stringLoadingKernel).displayString = some s₁ ∧ Shown d L s (s₁.drop.setAx s₁.top) := by
  obtain ⟨header, track', order, text, image⟩ := id placed
  have sp := fetched.sp
  have kept : ∀ {off : Nat}, off ≤ L.stringLoadingKernel + 1 → off ≠ L.evenOrOdd → s'.byte off = s.byte off := by
    intro off before other
    rw [byte, byte, fetched.writes.kept _ (round_outside placed clear before other)]
  obtain ⟨s₁, done, _, bx, di, es, sp₁, writes⟩ := displayString_spec (s := s'.setSi L.stringLoadingKernel)
    (by
      rw [setSi_si, byte, setSi_mem, ← byte, kept (by omega) (by omega)]
      exact ready.dot)
    (by rw [setSi_si, byte, setSi_mem, ← byte, kept (by omega) (by omega), ready.stop])
    (by rw [setSi_si, setSi_sp]; omega)
    (by rw [setSi_di, fetched.di]; omega)
    (by rw [setSi_ax]; exact fetched.ax)
    (by rw [setSi_sp]; omega)
  rw [setSi_sp] at sp₁
  -- the text goes to the screen, away from the kernel and from the stack
  have outside : ∀ a, a < 0x90000 ∨ phys setupSeg (L.topOfStack - 2) ≤ a ∧ a < 0xB0000 →
      ¬ ((s'.setSi L.stringLoadingKernel).Cell a ∨ (s'.setSi L.stringLoadingKernel).Below 2 a) := by
    intro a apart
    unfold Cell Below
    rw [setSi_di, fetched.di, setSi_sp, sp]
    unfold phys setupSeg screenSeg at *
    omega
  refine ⟨s₁, done, ?_⟩
  constructor
  · rw [setAx_ax, Cpu.top, sp₁, sp, writes.word, word, setSi_mem, ← word, fetched.top]
    · exact outside _ (by unfold phys setupSeg; omega)
    · exact outside _ (by unfold phys setupSeg; omega)
  · rw [setAx_bx, drop_bx, bx, setSi_bx, fetched.bx]
  · rw [setAx_es, drop_es, es, setSi_es, fetched.es]
  · rw [setAx_di, drop_di, di, setSi_di, fetched.di]
  · rw [setAx_sp, drop_sp, sp₁, sp]
    omega
  · intro j inside
    rw [setAx_mem, drop_mem, writes.kept _ (outside _ (by omega)), setSi_mem, fetched.data j inside]
  · rw [setAx_stores, drop_stores]
    apply writes.grows
    rw [setSi_stores]
    exact fetched.stored
  · have same : Writes (s.RoundArea L) s' (s'.setSi L.stringLoadingKernel) := .none rfl rfl
    refine ((fetched.writes.trans same).trans (writes.mono fun a stored => ?_)).trans (.none rfl rfl)
    unfold Cell Below at stored
    rw [setSi_di, fetched.di, setSi_sp, sp] at stored
    unfold RoundArea Labels.Scratch phys screenSeg at *
    omega

theorem loadCluster_spec (placed : L.Placed) (ready : Ready L s) (small : s.ax < 0xFF7) (bx : s.bx < 0x10000)
    (es : s.es < 0x10000) (clear : phys s.es s.bx + 512 ≤ 0x90000) (screen : s.di + 2 ≤ 0xFA0) :
    ∃ s', s.loadCluster d L = some s' ∧ Loaded d L s s' := by
  obtain ⟨header, track', order, text, image⟩ := id placed
  obtain ⟨s1, read, fetched⟩ := fetch_spec (d := d) placed ready small clear
  obtain ⟨s2, displayed, shown⟩ := show_spec placed ready clear screen fetched
  unfold loadCluster
  simp only [read, displayed, Option.bind_eq_bind, Option.bind_some]
  generalize s2.drop.setAx s2.top = s3 at shown ⊢
  have sp := shown.sp
  have ready3 : Ready L s3 := ready.writes placed clear shown.writes (sp.trans ready.sp.symm)
  -- the number of the next cluster, from the table on the disk
  obtain ⟨s4, done, table⟩ := readFATValue_spec (d := d) placed ready3.track ready3.size (by rw [shown.ax]; omega)
    (by rw [shown.bx]; exact bx) (by rw [shown.es]; exact es) (by omega) (by omega)
  have after : Writes (s.RoundArea L) s3 s4 := table.writes.mono fun a stored => by
    unfold FatArea Below at stored
    rw [sp] at stored
    unfold RoundArea Labels.Scratch phys at *
    omega
  refine ⟨s4, done, ?_⟩
  constructor
  · rw [table.ax, shown.ax]
  · rw [table.aside.bx, shown.bx]
  · rw [table.aside.es, shown.es]
  · rw [table.aside.di, shown.di]
  · exact ready.writes placed clear (shown.writes.trans after) (by rw [table.aside.sp, sp, ready.sp])
  · intro j inside
    -- the table is read to memory above the cluster
    rw [table.writes.kept, shown.data j inside]
    unfold FatArea Below
    unfold phys setupSeg at *
    omega
  · exact after.grows _ shown.stored
  · exact shown.writes.trans after

end Round

/-! ### The whole chain -/

/-- Segment and offset for the cluster with this number in the chain. -/
def segment (i : Nat) : Nat := if i < 128 then 0x5000 else 0x1000
def offset (i : Nat) : Nat := 512 * (i % 128)

/-- Where the code puts the cluster. -/
def target (i : Nat) : Nat := phys (segment i) (offset i)

theorem target_eq (i : Nat) : target i = if i < 128 then 0x50000 + 512 * i else 0x10000 + 512 * (i % 128) := by
  unfold target segment offset phys
  split
  · omega
  · omega

section Chain

variable {d : Disk} {L : Labels} {s s' : Cpu} {c : Nat → Nat} {i k : Nat}

/-- The state before the round for the cluster with this number in the chain. -/
structure Before (L : Labels) (c : Nat → Nat) (i : Nat) (s : Cpu) : Prop where
  ax : s.ax = c i
  es : s.es = segment i
  bx : s.bx = offset i
  di : s.di = 0x140 + 2 * i
  ready : Ready L s

theorem advance_spec (before : s.es = segment i ∧ s.bx = offset i) :
    s.advance.es = segment (i + 1) ∧ s.advance.bx = offset (i + 1) ∧ s.advance.ax = s.ax ∧ s.advance.di = s.di ∧
      s.advance.sp = s.sp ∧ s.advance.mem = s.mem ∧ s.advance.stores = s.stores := by
  obtain ⟨es, bx⟩ := before
  unfold advance
  simp only [setBx_bx, bx]
  split
  next inside =>
    refine ⟨?_, ?_, setBx_ax _ _, setBx_di _ _, setBx_sp _ _, setBx_mem _ _, setBx_stores _ _⟩
    · rw [setBx_es, es]
      unfold segment offset offsetOfKernel at *
      split <;> split <;> omega
    · rw [setBx_bx]
      unfold offset offsetOfKernel at *
      omega
  next wrapped =>
    have zero : (offset i + 512) % 0x10000 = 0 := not_not.mp wrapped
    -- the offset has wrapped, so this was the last sector of the segment
    have full : i % 128 = 127 := by
      unfold offset at zero
      omega
    simp only [setEs_bx, setBx_bx, zero]
    refine ⟨?_, ?_, by simp, by simp, by simp, by simp, by simp⟩
    · rw [setBx_es, setEs_es]
      unfold segment
      rw [if_neg (by omega)]
    · unfold offset offsetOfKernel
      omega

/-- The bytes of the places for the clusters from `i` to `k`. -/
def Targets (i k : Nat) (a : Nat) : Prop := ∃ j, i ≤ j ∧ j ≤ k ∧ target j ≤ a ∧ a < target j + 512

/-- Everything that the rounds for the clusters from `i` to `k` leave. -/
structure Chained (d : Disk) (L : Labels) (c : Nat → Nat) (i k : Nat) (s s' : Cpu) : Prop where
  data : ∀ j, i ≤ j → j ≤ k → j < 128 → ∀ b, b < 512 → s'.mem (target j + b) = d (c j + dataSectorStart) b
  stored : ∀ j, i ≤ j → j ≤ k → target j ∈ s'.stores
  writes : Writes (fun a => Targets i k a ∨ L.Scratch a) s s'

theorem target_lt (i : Nat) : target i + 512 ≤ 0x90000 ∧ segment i < 0x10000 ∧ offset i < 0x10000 := by
  unfold target segment offset phys
  split <;> omega

/-- One round, in the terms of the chain. -/
theorem Loaded.chained (loaded : Loaded d L s s') (before : Before L c i s) : Chained d L c i i s s' := by
  have here : phys s.es s.bx = target i := by rw [before.es, before.bx, target]
  constructor
  · intro j above below _ b inside
    obtain rfl : j = i := Nat.le_antisymm below above
    rw [← here, loaded.data b inside, before.ax]
  · intro j above below
    obtain rfl : j = i := Nat.le_antisymm below above
    rw [← here]
    exact loaded.stored
  · refine loaded.writes.mono fun a stored => stored.imp_left fun sector => ⟨i, Nat.le_refl i, Nat.le_refl i, ?_⟩
    unfold Buffer at sector
    rw [here] at sector
    exact sector

theorem scratch_above (L : Labels) {a : Nat} (scratch : L.Scratch a) : 0x90000 ≤ a := by
  unfold Labels.Scratch phys setupSeg at scratch
  omega

/-- A later sector does not overwrite a cluster before the wrap. -/
theorem target_apart {j : Nat} (low : i < 128) (later : i < j) :
    target i + 512 ≤ target j ∨ target j + 512 ≤ target i := by
  rw [target_eq, target_eq, if_pos low]
  split <;> omega

theorem Chained.append {s1 s2 s3 : Cpu} (first : Chained d L c i i s s1) (le : i ≤ k) (mem : s2.mem = s1.mem)
    (stores : s2.stores = s1.stores) (rest : Chained d L c (i + 1) k s2 s3) : Chained d L c i k s s3 := by
  -- the rest of the chain goes to other places, and leaves the first sector alone
  constructor
  · intro j above below wrap b inside
    rcases Nat.eq_or_lt_of_le above with rfl | later
    · rw [rest.writes.kept, mem, first.data i (Nat.le_refl i) (Nat.le_refl i) wrap b inside]
      rintro (⟨j, later, _, sector⟩ | scratch)
      · have apart := target_apart wrap (show i < j from later)
        omega
      · have upper := scratch_above L scratch
        have lower := (target_lt i).1
        omega
    · exact rest.data j later below wrap b inside
  · intro j above below
    rcases Nat.eq_or_lt_of_le above with rfl | later
    · apply rest.writes.grows
      rw [stores]
      exact first.stored i (Nat.le_refl i) (Nat.le_refl i)
    · exact rest.stored j later below
  · have early : Writes (fun a => Targets i k a ∨ L.Scratch a) s s1 := first.writes.mono fun a stored =>
      stored.imp_left fun ⟨j, above, below, sector⟩ => ⟨j, above, Nat.le_trans below le, sector⟩
    have late : Writes (fun a => Targets i k a ∨ L.Scratch a) s2 s3 := rest.writes.mono fun a stored =>
      stored.imp_left fun ⟨j, above, below, sector⟩ => ⟨j, Nat.le_of_succ_le above, below, sector⟩
    exact early.trans ((Writes.none mem stores).trans late)

/-- From any cluster of the chain on, by induction on the number of clusters left. -/
theorem loadKernel_spec (placed : L.Placed) (small : ∀ j, j ≤ k → c j < 0xFF7)
    (links : ∀ j, j < k → fatEntry d (c j) = c (j + 1))
    (last : 0xFF7 ≤ fatEntry d (c k)) (fits : k < 512) (n : Nat) :
    ∀ i s, i + n = k → Before L c i s → ∃ s', s.loadKernel d L (n + 1) = some s' ∧ Chained d L c i k s s' := by
  -- the induction is on the clusters that are left; the last one ends the loop
  induction n with
  | zero =>
    intro i s total before
    obtain rfl : i = k := total
    obtain ⟨s1, done, loaded⟩ := loadCluster_spec (d := d) placed before.ready
      (by rw [before.ax]; exact small i (Nat.le_refl i))
      (by rw [before.bx]; exact (target_lt i).2.2) (by rw [before.es]; exact (target_lt i).2.1)
      (by rw [before.es, before.bx]; exact (target_lt i).1) (by rw [before.di]; omega)
    have first := loaded.chained before
    refine ⟨s1, ?_, first⟩
    rw [loadKernel, done]
    simp only [Option.bind_eq_bind, Option.bind_some]
    rw [loaded.ax, before.ax, if_pos last]
  | succ n ih =>
    intro i s total before
    obtain ⟨s1, done, loaded⟩ := loadCluster_spec (d := d) placed before.ready
      (by rw [before.ax]; exact small i (by omega))
      (by rw [before.bx]; exact (target_lt i).2.2) (by rw [before.es]; exact (target_lt i).2.1)
      (by rw [before.es, before.bx]; exact (target_lt i).1) (by rw [before.di]; omega)
    have first := loaded.chained before
    -- the table links this cluster to the next one, so the loop goes on with it
    have link := links i (by omega)
    obtain ⟨es, bx, ax, di, sp, mem, stores⟩ :=
      advance_spec (i := i) ⟨loaded.es.trans before.es, loaded.bx.trans before.bx⟩
    have next : Before L c (i + 1) s1.advance := by
      refine ⟨?_, es, bx, ?_, loaded.ready.same sp mem⟩
      · rw [ax, loaded.ax, before.ax, link]
      · rw [di, loaded.di, before.di]
        omega
    obtain ⟨s', rest, chained⟩ := ih (i + 1) s1.advance (by omega) next
    refine ⟨s', ?_, ?_⟩
    · rw [loadKernel, done]
      simp only [Option.bind_eq_bind, Option.bind_some]
      rw [loaded.ax, before.ax, link, if_neg (Nat.not_le.mpr (small _ (by omega))), rest]
    · exact first.append (by omega) mem stores chained

/-- The addresses that loading a file of `k + 1` clusters may write to. -/
def Allowed (L : Labels) (k a : Nat) : Prop := (0x50000 ≤ a ∧ a < 0x50000 + 512 * (k + 1)) ∨ L.Scratch a

/-- The state at the start of the loop. -/
structure Start (L : Labels) (first : Nat) (s : Cpu) : Prop where
  ax : s.ax = first
  es : s.es = baseOfKernel
  bx : s.bx = offsetOfKernel
  di : s.di = 0x140
  ready : Ready L s
  stores : s.stores = []

/-- Each cluster of the file lies in its place, and only the allowed addresses were written. -/
def Placed (d : Disk) (L : Labels) (c : Nat → Nat) (k : Nat) (s : Cpu) : Prop :=
  (∀ i, i ≤ k → ∀ b, b < 512 → s.mem (0x50000 + 512 * i + b) = d (c i + dataSectorStart) b) ∧
    ∀ a ∈ s.stores, Allowed L k a

theorem placed_iff_of_chained (start : Start L (c 0) s) (chained : Chained d L c 0 k s s') :
    Placed d L c k s' ↔ k < 128 := by
  constructor
  · rintro ⟨_, only⟩
    by_contra large
    -- cluster 128 goes to `0x10000`
    have wrong := chained.stored 128 (Nat.zero_le _) (by omega)
    rw [show target 128 = 0x10000 from rfl] at wrong
    rcases only _ wrong with kernel | scratch
    · omega
    · have above := scratch_above L scratch
      omega
  · intro small
    have place : ∀ i, i ≤ k → target i = 0x50000 + 512 * i := by
      intro i le
      rw [target_eq, if_pos (by omega)]
    constructor
    · intro i le b inside
      rw [← place i le]
      exact chained.data i (Nat.zero_le i) le (by omega) b inside
    · intro a stored
      rcases chained.writes.logged a stored with old | ⟨i, _, le, sector⟩ | scratch
      · rw [start.stores] at old
        cases old
      · rw [place i le] at sector
        exact .inl (by omega)
      · exact .inr scratch

/-- The kernel is loaded to its place exactly if it has at most 128 clusters. -/
theorem loadKernel_iff (placed : L.Placed) (start : Start L (c 0) s) (fits : k < 512)
    (small : ∀ i, i ≤ k → c i < 0xFF7) (links : ∀ i, i < k → fatEntry d (c i) = c (i + 1))
    (last : 0xFF7 ≤ fatEntry d (c k)) :
    ∃ s', s.loadKernel d L (k + 1) = some s' ∧ (Placed d L c k s' ↔ k < 128) := by
  have before : Before L c 0 s := ⟨start.ax, start.es, start.bx, start.di, start.ready⟩
  obtain ⟨s', done, chained⟩ := loadKernel_spec placed small links last fits k 0 s (Nat.zero_add k) before
  exact ⟨s', done, placed_iff_of_chained start chained⟩

end Chain

/-! ### Disks with a chain -/

/-- The disk whose allocation table has the entries of `next`. -/
def diskOf (next : Nat → Nat) : Disk := fun sector off =>
  let n := 512 * (sector - fatSectorStart) + off
  let m := n / 3
  BitVec.ofNat 8 <|
    if n % 3 = 0 then next (2 * m) % 256
    else if n % 3 = 1 then next (2 * m) / 256 % 16 + 16 * (next (2 * m + 1) % 16)
    else next (2 * m + 1) / 16 % 256

theorem diskOf_byte (next : Nat → Nat) (n : Nat) : (diskOf next (fatSectorStart + n / 512) (n % 512)).toNat =
    if n % 3 = 0 then next (2 * (n / 3)) % 256
    else if n % 3 = 1 then next (2 * (n / 3)) / 256 % 16 + 16 * (next (2 * (n / 3) + 1) % 16)
    else next (2 * (n / 3) + 1) / 16 % 256 := by
  have whole : 512 * (fatSectorStart + n / 512 - fatSectorStart) + n % 512 = n := by omega
  unfold diskOf
  simp only [whole, BitVec.toNat_ofNat]
  split
  · omega
  · split <;> omega

/-- The word of an entry, masked or shifted, is the entry, for two bytes in which the entries are packed. -/
theorem fatEntry_eq {d : Disk} (next : Nat → Nat) {c : Nat} (small : next c < 0x1000)
    (byte : ∀ n, n = 3 * c / 2 ∨ n = 3 * c / 2 + 1 → (d (fatSectorStart + n / 512) (n % 512)).toNat =
      if n % 3 = 0 then next (2 * (n / 3)) % 256
      else if n % 3 = 1 then next (2 * (n / 3)) / 256 % 16 + 16 * (next (2 * (n / 3) + 1) % 16)
      else next (2 * (n / 3) + 1) / 16 % 256) : fatEntry d c = next c := by
  rw [fatEntry, byte _ (.inl rfl), byte _ (.inr rfl)]
  -- an even entry begins a group of three bytes, an odd one ends it
  obtain ⟨m, even | odd⟩ : ∃ m, c = 2 * m ∨ c = 2 * m + 1 := ⟨c / 2, by omega⟩
  · subst even
    rw [show 3 * (2 * m) / 2 = 3 * m by omega, show 3 * m % 3 = 0 by omega, show 3 * m / 3 = m by omega,
      show (3 * m + 1) % 3 = 1 by omega, show (3 * m + 1) / 3 = m by omega, show 2 * m % 2 = 0 by omega]
    simp only [if_true, Nat.one_ne_zero, if_false]
    omega
  · subst odd
    rw [show 3 * (2 * m + 1) / 2 = 3 * m + 1 by omega, show (3 * m + 1) % 3 = 1 by omega,
      show (3 * m + 1) / 3 = m by omega, show (3 * m + 1 + 1) % 3 = 2 by omega,
      show (3 * m + 1 + 1) / 3 = m by omega, show (2 * m + 1) % 2 = 1 by omega]
    simp only [if_true, Nat.succ_ne_zero, show ¬ 2 = 1 by decide, if_false]
    omega

theorem fatEntry_diskOf (next : Nat → Nat) (c : Nat) (small : next c < 0x1000) : fatEntry (diskOf next) c = next c :=
  fatEntry_eq next small fun n _ => diskOf_byte next n

/-- A file of `k + 1` clusters from cluster 2 on. -/
def fileDisk (k : Nat) : Disk := diskOf fun c => if c < 2 + k then c + 1 else 0xFFF

def labels : Labels := ⟨11, 24, 36, 0x200, 0x230, 0x500⟩

def startMem (a : Nat) : BitVec 8 :=
  if a = phys setupSeg 12 then 2 else if a = phys setupSeg 24 then 18 else if a = phys setupSeg 0x230 then 0x2E else 0

def startCpu : Cpu := ⟨2, offsetOfKernel, 1, 0, 0, 0x140, 0, 0x500, baseOfKernel, startMem, []⟩

theorem fileDisk_chain {k c : Nat} (fits : k < 512) : fatEntry (fileDisk k) c = if c < 2 + k then c + 1 else 0xFFF := by
  rw [fileDisk, fatEntry_diskOf]
  split <;> omega

theorem labels_placed : labels.Placed := by constructor <;> decide

theorem startCpu_start : Start labels 2 startCpu := by
  refine ⟨rfl, rfl, rfl, rfl, ⟨rfl, ?_, ?_, ?_, ?_⟩, rfl⟩
  all_goals decide

/-- A file of 128 clusters in every fifth one from cluster 2 on. -/
def spreadDisk : Disk := diskOf fun c => if c < 637 then c + 5 else 0xFFF

theorem loadKernel_iff_spread : ∃ s', startCpu.loadKernel spreadDisk labels (127 + 1) = some s' ∧
    Placed spreadDisk labels (fun i => 2 + 5 * i) 127 s' := by
  have chain : ∀ c, fatEntry spreadDisk c = if c < 637 then c + 5 else 0xFFF := by
    intro c
    rw [spreadDisk, fatEntry_diskOf]
    split <;> omega
  have loaded := loadKernel_iff (d := spreadDisk) (c := fun i => 2 + 5 * i) (k := 127) labels_placed
    startCpu_start (by decide) (fun i le => by omega) (fun i less => by rw [chain, if_pos (by omega)]; omega)
    (by rw [chain, if_neg (by decide)]; decide)
  obtain ⟨s', done, iff⟩ := loaded
  exact ⟨s', done, iff.mpr (by decide)⟩

/-- A file of 129 clusters: its last sector goes to `0x10000`. -/
theorem loadKernel_lost : ∃ s', startCpu.loadKernel (fileDisk 128) labels (128 + 1) = some s' ∧
    ¬ Placed (fileDisk 128) labels (fun i => 2 + i) 128 s' := by
  have before : Before labels (fun i => 2 + i) 0 startCpu :=
    ⟨rfl, rfl, rfl, rfl, startCpu_start.ready⟩
  obtain ⟨s', done, chained⟩ := loadKernel_spec (d := fileDisk 128) (c := fun i => 2 + i) (k := 128) labels_placed
    (fun i le => by omega) (fun i less => by rw [fileDisk_chain (by decide), if_pos (by omega)]; omega)
    (by rw [fileDisk_chain (by decide), if_neg (by decide)]; decide) (by decide) 128 0 startCpu rfl before
  refine ⟨s', done, fun placed => ?_⟩
  exact absurd ((placed_iff_of_chained startCpu_start chained).mp placed) (by decide)

end Cpu

end OperatorSystem.Boot
