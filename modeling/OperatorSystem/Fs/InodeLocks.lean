import OperatorSystem.Fs.Calls
import OperatorSystem.Fs.Queues

/-!
# Inode locks of a single task

`writeInode` keeps its inode locked while it calls `bread`. If `getblk` then
chooses a dirty buffer, `syncDev` comes back to `syncInodes`, which waits for
the inode. The main result `noSelfWait_of_run` says that this is the only way a
task waits for a lock of its own.
-/

namespace OperatorSystem.Fs

namespace World

/-- A call of `writeInode` that has locked the inode and not unlocked it yet. -/
def Locks (frames : List Frame) (i : Nat) : Prop := .inodeValue i ∈ frames ∨ .inodeDone i ∈ frames

/-- One task, with any well-formed cache and any inodes, none of them locked. -/
def oneTask : Transition.System (World Unit) Event where
  init s := s.cache.WellFormed ∧ (∀ i, (s.inodes i).lock = false) ∧ s.stack = []
  step := Step

/-- The task does not wait in `waitOnInode` or `lockInode` for a lock of its own. -/
def NoSelfWait (s : World Unit) : Prop :=
  ∀ i below, s.stack = .syncInodes i :: below ∨ s.stack = .writeInode i :: below → ¬ Locks below i

/-- A free victim that `getblk` has waited for while an inode is locked is not dirty. -/
def CleanVictim (s : World Unit) (_ : Event) : Prop :=
  ∀ dev block b below, s.stack = .victim dev block b :: below → (s.head b).lock = false →
    (s.head b).count = 0 → (s.head b).dirt → ∀ i, ¬ Locks below i

/-! ### The calls under a locked inode -/

/-- The calls on the way to an inode lock. -/
def Synchronises : Frame → Prop
  | .syncTest .. | .syncWait .. | .syncInodes _ | .writeInode _ => True
  | _ => False

/-- No call on the way to an inode lock has been made with an inode locked. -/
def Calm : List Frame → Prop
  | [] => True
  | f :: below => (Synchronises f → ∀ i, ¬ Locks below i) ∧ Calm below

section Calls

variable {f : Frame} {below : List Frame}

theorem calm_cons (plain : ¬ Synchronises f) (calm : Calm below) : Calm (f :: below) :=
  ⟨fun sync => absurd sync plain, calm⟩

theorem not_locks_cons (plain : ∀ i, f ≠ .inodeValue i ∧ f ≠ .inodeDone i) (free : ∀ i, ¬ Locks below i)
    (i : Nat) : ¬ Locks (f :: below) i := by
  rintro (value | done)
  · rcases List.mem_cons.mp value with same | old
    · exact (plain i).1 same.symm
    · exact free i (.inl old)
  · rcases List.mem_cons.mp done with same | old
    · exact (plain i).2 same.symm
    · exact free i (.inr old)

end Calls

section Steps

variable {s s' : World Unit} {below : List Frame}

/-- What a step of the calls makes of the stack. -/
theorem calm_next {f : Frame} (next : Next s f below s') (calm : Calm (f :: below))
    (clean : ∀ dev block b, f = .victim dev block b → (s.head b).lock = false → (s.head b).count = 0 →
      (s.head b).dirt → ∀ i, ¬ Locks below i) : Calm s'.stack := by
  -- the frames below stay as they are, so only the new top frame is in question
  have tail : Calm below := calm.2
  cases next with
  | dirty unlocked free dirt =>
    have open' := clean _ _ _ rfl unlocked free dirt
    rw [setStack_stack]
    exact ⟨fun _ => not_locks_cons (by simp) open', calm_cons (by simp [Synchronises]) tail⟩
  | syncNext | syncHere | syncClean | inodeClean =>
    rw [setStack_stack]
    exact ⟨fun _ => calm.1 trivial, tail⟩
  | syncMiddle | inodeWrite =>
    have free := calm.1 trivial
    rw [setStack_stack]
    exact ⟨fun _ => not_locks_cons (by simp) free, fun _ => free, tail⟩
  | syncWrite =>
    rw [setStack_stack]
    exact calm_cons (by simp [Synchronises]) ⟨fun _ => calm.1 trivial, tail⟩
  | resume =>
    rw [setStack_stack]
    exact tail
  | handOut => simp [Calm, stack, setStack]
  | breadHit | breadMiss | breadNull | writeDirty | writeUnlock =>
    rw [setStack_stack]
    simpa [Calm, Synchronises] using tail.2
  | _ =>
    rw [setStack_stack]
    simpa [Calm, Synchronises] using tail

theorem calm_step {a : Event} (calm : Calm s.stack) (taken : Step s a s') (clean : CleanVictim s a) :
    Calm s'.stack := by
  cases taken with
  | call idle entry =>
    rename_i f held
    have alone : Calm [f] := ⟨fun _ i => by simp [Locks], trivial⟩
    simpa [stack, setStack] using alone
  | exec done =>
    obtain ⟨f, below, top, _, next⟩ := exec_next done
    rw [top] at calm
    apply calm_next next calm
    rintro dev block b rfl
    exact clean dev block b below top
  | switch sleeps => exact calm
  | disk locked => exact calm
  | dirty holds => exact calm
  | inode lock => exact calm

theorem noSelfWait_of_calm (calm : Calm s.stack) : NoSelfWait s := by
  rintro i below (top | top)
  · rw [top] at calm
    exact calm.1 trivial i
  · rw [top] at calm
    exact calm.1 trivial i

end Steps

/-- While no free victim is dirty under a locked inode, the task never waits for
a lock of its own. -/
theorem noSelfWait_of_run {hist : List (World Unit × Event)} {s : World Unit}
    (run : Transition.Run oneTask hist s) (clean : ∀ x ∈ hist, CleanVictim x.1 x.2) : NoSelfWait s := by
  have calm : Calm s.stack := by
    apply run.guarded (I := fun s => Calm s.stack) _ _ clean
    · intro s start
      rw [start.2.2]
      trivial
    · intro s a s' calm taken guard
      exact calm_step calm taken guard
  exact noSelfWait_of_calm calm

/-! ### A task that waits for itself -/

/-- `n` steps of the running task. -/
def execs (s : World Unit) (fuel : Nat) : Nat → Option (World Unit)
  | 0 => some s
  | n + 1 => s.exec fuel >>= fun s' => execs s' fuel n

theorem run_execs {P : World Unit → Prop} {hist : List (World Unit × Event)} {s s' : World Unit} {fuel n : Nat}
    (run : Transition.Run oneTask hist s) (before : ∀ x ∈ hist, P x.1) (done : s.execs fuel n = some s')
    (kept : ∀ k < n, ∀ t, s.execs fuel k = some t → P t) :
    ∃ hist', Transition.Run oneTask hist' s' ∧ ∀ x ∈ hist', P x.1 := by
  induction n generalizing hist s with
  | zero =>
    obtain rfl := Option.some.inj done
    exact ⟨hist, run, before⟩
  | succ n ih =>
    obtain ⟨s1, first, rest⟩ := Option.bind_eq_some_iff.mp done
    refine ih (run.step (.exec first)) ?_ rest ?_
    · exact List.forall_mem_cons.mpr ⟨kept 0 (Nat.succ_pos n) s rfl, before⟩
    · intro k less t later
      refine kept (k + 1) (Nat.succ_lt_succ less) t ?_
      rw [execs, first]
      exact later

/-- The only buffer holds a block of the disk, modified or not, and the first inode of
the disk is to be written to another block. -/
def oneBuffer (dirt : Bool) : World Unit where
  cache :=
    { heads := fun _ => ⟨0x200000, 5, 0x300, true, dirt, 0, false, none, none, some (headAddr 0), some (headAddr 0)⟩
      freeList := headAddr 0
      hashTable := fun k => if k = hashfn 0x300 5 then some (headAddr 0) else none
      nrBuffers := 1 }
  inodes i := ⟨0x300, 1, false, i = 0, false⟩
  superBlk _ := some ⟨1, 1⟩
  requestFn _ := true
  frames _ := []
  held _ := []
  running := ()

theorem oneBuffer_wellFormed (dirt : Bool) : (oneBuffer dirt).cache.WellFormed := by
  -- the cache has one buffer, at the bottom of the area
  have only : ∀ a, (oneBuffer dirt).cache.IsHead a ↔ a = headAddr 0 := by
    intro a
    constructor
    · rintro ⟨i, small, rfl⟩
      obtain rfl : i = 0 := Nat.lt_one_iff.mp small
      rfl
    · rintro rfl
      exact ⟨0, Nat.one_pos, rfl⟩
  have used : ∀ a, ((oneBuffer dirt).cache.heads a).dev ≠ 0 := by
    intro a
    change (0x300 : BitVec 16) ≠ 0
    decide
  refine ⟨⟨[headAddr 0], fun k => if k = hashfn 0x300 5 then [headAddr 0] else [], ?_⟩, ?_⟩
  · constructor
    · intro a
      rw [only, List.mem_singleton]
    · exact List.nodup_singleton _
    · exact fun _ => rfl
    · exact ⟨⟨rfl, rfl⟩, rfl, trivial⟩
    · intro k a
      rw [only, show (oneBuffer dirt).cache.bucket a = hashfn 0x300 5 from rfl]
      split
      next here =>
        rw [List.mem_singleton]
        exact ⟨fun first => ⟨first, used a, here.symm⟩, fun both => both.1⟩
      next elsewhere =>
        exact ⟨fun inside => absurd inside List.not_mem_nil, fun both => absurd both.2.2.symm elsewhere⟩
    · intro k
      change PointerList.Seg _ (if k = hashfn 0x300 5 then some (headAddr 0) else none) _ _
      split
      · exact ⟨rfl, rfl⟩
      · rfl
    · intro k
      split
      · exact ⟨rfl, trivial⟩
      · trivial
    · intro a _ unused
      exact absurd unused (used a)
  · intro a b isHead isHead' _ _ _
    rw [(only a).mp isHead, (only b).mp isHead']

theorem call_oneBuffer (dirt : Bool) : Transition.Run oneTask [(oneBuffer dirt, .call)]
    { (oneBuffer dirt).setStack [.syncInodes 0] with held := (oneBuffer dirt).held } := by
  have start : oneTask.init (oneBuffer dirt) := ⟨oneBuffer_wellFormed dirt, fun _ => rfl, rfl⟩
  exact (Transition.Run.init start).step (.call (f := .syncInodes 0) rfl .syncInodes)

theorem selfWait : ∃ hist s, Transition.Run oneTask hist s ∧ ¬ NoSelfWait s := by
  have reached : (execs ({ (oneBuffer true).setStack [.syncInodes 0] with held := (oneBuffer true).held }) 3 11).map
      stack = some [.syncInodes 0, .syncTest 0x300 true 0, .victim 0x300 4 (headAddr 0), .breadValue, .inodeValue 0,
        .syncInodes 1] := by
    decide +kernel
  obtain ⟨s, done, top⟩ := Option.map_eq_some_iff.mp reached
  obtain ⟨hist, run, _⟩ := run_execs (P := fun _ => True) (call_oneBuffer true) (fun _ _ => trivial) done
    fun _ _ _ _ => trivial
  refine ⟨hist, s, run, fun noWait => ?_⟩
  exact noWait 0 _ (.inl top) (.inl (by simp))

/-- The buffer on top of the stack as a victim is not dirty. -/
def victimClean (s : World Unit) : Bool :=
  match s.stack with
  | .victim _ _ b :: _ => !(s.head b).dirt
  | _ => true

theorem cleanVictim {s : World Unit} (clean : s.victimClean = true) (a : Event) : CleanVictim s a := by
  intro dev block b below top _ _ dirt
  rw [victimClean, top] at clean
  simp [dirt] at clean

/-- The same call with a buffer that has not been modified: `writeInode` gets it and waits for the disk. -/
theorem noSelfWait_clean : ∃ hist s, Transition.Run oneTask hist s ∧
    s.stack = [.breadWait (headAddr 0), .inodeValue 0, .syncInodes 1] ∧ (s.inodes 0).lock = true ∧ NoSelfWait s := by
  have reached : (execs ({ (oneBuffer false).setStack [.syncInodes 0] with held := (oneBuffer false).held }) 3 9).map
      (fun s => (s.stack, (s.inodes 0).lock)) =
        some ([.breadWait (headAddr 0), .inodeValue 0, .syncInodes 1], true) := by
    decide +kernel
  have clean : ∀ k < 9, (execs ({ (oneBuffer false).setStack [.syncInodes 0] with
      held := (oneBuffer false).held }) 3 k).all victimClean = true := by
    decide +kernel
  obtain ⟨s, done, there⟩ := Option.map_eq_some_iff.mp reached
  obtain ⟨top, lock⟩ := Prod.mk.inj there
  obtain ⟨hist, run, kept⟩ := run_execs (P := fun s => s.victimClean = true) (call_oneBuffer false)
    (List.forall_mem_singleton.mpr rfl) done fun k less t later => by
      have here := clean k less
      rw [later] at here
      exact here
  exact ⟨hist, s, run, top, lock, noSelfWait_of_run run fun x member => cleanVictim (kept x member) x.2⟩

end World

end OperatorSystem.Fs
