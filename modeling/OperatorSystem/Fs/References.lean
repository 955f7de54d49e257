import Mathlib.Algebra.Order.BigOperators.Group.Finset
import OperatorSystem.Fs.Calls
import OperatorSystem.Fs.Queues

/-!
# Reference counts of buffers

`b_count` is to be the number of hand-outs of a buffer that are not released,
plus the tasks that wait for it in `getHashTable`. The functions keep it so as
long as `getHashTable` never raises a count of 255 (`counted_iff`); the 8-bit
field has no room for more.
-/

namespace OperatorSystem.Fs

namespace Frame

/-- The buffer that a call has been handed out, or hands out. -/
def keeps : Frame → List Addr
  | .breadWait b => [b]
  | .brelse b => [b]
  | .ret (some b) => [b]
  | _ => []

/-- The buffer whose count `getHashTable` has raised. -/
def awaits : Frame → List Addr
  | .hashWait _ _ b => [b]
  | _ => []

/-- The buffers that a call uses on the way to a hand-out. -/
def buffers : Frame → List Addr
  | .victim _ _ b => [b]
  | f => f.keeps ++ f.awaits

/-- The calls that return a buffer. -/
def Valued : Frame → Prop
  | .getblk .. | .hashWait .. | .bufferWait .. | .victim .. => True
  | .bread .. | .breadValue | .breadWait _ | .breadFailed | .ret (some _) => True
  | _ => False

/-- The calls that go on with a returned buffer. -/
def Receives : Frame → Prop
  | .breadValue | .inodeValue _ => True
  | _ => False

end Frame

namespace World

/-- A buffer is only returned to where it is used. -/
def Typed : List Frame → Prop
  | [] => True
  | f :: below => (f.Valued → ∀ g ∈ below.head?, g.Receives) ∧ Typed below

section Typing

variable {f g : Frame} {below : List Frame}

theorem typed_plain (plain : ¬ f.Valued) (typed : Typed below) : Typed (f :: below) :=
  ⟨fun valued => absurd valued plain, typed⟩

/-- The call on top is replaced by one that returns a value only if it does. -/
theorem Typed.replace (typed : Typed (f :: below)) (valued : g.Valued → f.Valued) : Typed (g :: below) :=
  ⟨fun value => typed.1 (valued value), typed.2⟩

end Typing

variable {τ : Type} [DecidableEq τ]

section Steps

variable {s s' : World τ} {f : Frame} {below : List Frame}

theorem typed_next (next : Next s f below s') (typed : Typed (f :: below)) : Typed s'.stack := by
  have tail : Typed below := typed.2
  -- what a frame returns is what the frame below it waits for
  cases next with
  | found | chosen | full | matched | moved | retry | again | claim | breadDone =>
    rw [setStack_stack]
    exact typed.replace fun _ => trivial
  | dirty | breadError | syncWrite | syncMiddle | inodeWrite =>
    rw [setStack_stack]
    exact typed_plain id (typed.replace fun value => value)
  | bread | writeLock =>
    rw [setStack_stack]
    refine ⟨fun _ g here => ?_, typed.replace fun _ => ?_⟩
    · obtain rfl := Option.some.inj here
      trivial
    · trivial
  | breadHit =>
    rw [setStack_stack]
    exact tail.replace fun _ => trivial
  | breadMiss =>
    rw [setStack_stack]
    exact typed_plain id (tail.replace fun _ => trivial)
  | writeDirty =>
    rw [setStack_stack]
    exact typed_plain id (typed_plain id tail.2)
  | breadNull | writeUnlock =>
    rw [setStack_stack]
    exact typed_plain id tail.2
  | handOut => simp [Typed, stack, setStack]
  | resume =>
    rw [setStack_stack]
    exact tail
  | _ =>
    rw [setStack_stack]
    exact typed_plain id tail

/-- The calls only use buffers of `on`. -/
def Inside (on : Addr → Prop) (frames : List Frame) : Prop := ∀ g ∈ frames, ∀ b ∈ g.buffers, on b

theorem inside_cons {on : Addr → Prop} :
    Inside on (f :: below) ↔ (∀ b ∈ f.buffers, on b) ∧ Inside on below := by
  simp [Inside]

theorem inside_next (next : Next s f below s') {on : Addr → Prop} {free : List Addr} {chain : Nat → List Addr}
    (queues : s.cache.Queues on free chain) (nonempty : ∃ a, on a) (inside : Inside on (f :: below)) :
    Inside on s'.stack := by
  obtain ⟨here, below'⟩ := inside_cons.mp inside
  cases next with
  | found hit =>
    rw [setStack_stack, inside_cons]
    refine ⟨?_, below'⟩
    simpa [Frame.buffers, Frame.keeps, Frame.awaits] using (queues.findBuffer_hit hit).1
  | chosen absent best =>
    rw [setStack_stack, inside_cons]
    refine ⟨?_, below'⟩
    simpa [Frame.buffers] using (queues.victim_mem nonempty best).1
  | handOut => simp [Inside, stack, setStack]
  | resume =>
    rw [setStack_stack]
    exact below'
  | _ =>
    rw [setStack_stack]
    simp_all [inside_cons, Frame.buffers, Frame.keeps, Frame.awaits]

/-- A step keeps the queues of the cache. -/
theorem queues_next (next : Next s f below s') {on : Addr → Prop} {free : List Addr} {chain : Nat → List Addr}
    (queues : s.cache.Queues on free chain) (inside : ∀ b ∈ f.buffers, on b) :
    ∃ free' chain', s'.cache.Queues on free' chain' := by
  cases next with
  | @claim dev block _ fuel b cache unlocked used clean absent claimed =>
    have member : on b := by simpa [Frame.buffers] using inside
    exact Cache.claim_queues queues member claimed
  | found | moved | brelse | writeDirty | llLock | queued =>
    exact ⟨free, chain, queues.setHead ⟨rfl, rfl, rfl, rfl, rfl, rfl⟩⟩
  | _ => exact ⟨free, chain, queues⟩

theorem others_next (next : Next s f below s') : s'.running = s.running ∧
    s'.cache.nrBuffers = s.cache.nrBuffers ∧
    ∀ t, t ≠ s.running → s'.frames t = s.frames t ∧ s'.held t = s.held t := by
  have frames : ∀ (s : World τ) (frames : List Frame) t, t ≠ s.running → (s.setStack frames).frames t = s.frames t :=
    fun s frames t other => Function.update_of_ne other _ _
  cases next with
  | claim unlocked used clean absent claimed =>
    exact ⟨rfl, (Cache.claim_spec claimed).nrBuffers, fun t other => ⟨frames _ _ t other, rfl⟩⟩
  | handOut => exact ⟨rfl, rfl, fun t other => ⟨frames _ _ t other, Function.update_of_ne other _ _⟩⟩
  | _ => exact ⟨rfl, rfl, fun t other => ⟨frames _ _ t other, rfl⟩⟩

theorem held_next (next : Next s f below s') (b : Addr) (member : b ∈ s'.held s.running) :
    b ∈ s.held s.running ∨ f = .ret (some b) := by
  cases next with
  | @handOut value =>
    simp only [Function.update_self, List.mem_append, Option.mem_toList] at member
    rcases member with handed | old
    · rw [Option.mem_def.mp handed]
      exact .inr rfl
    · exact .inl old
  | _ => exact .inl member

end Steps

/-! ### Counting -/

/-- The references of one task to `b`. -/
def taskRefs (held : List Addr) (frames : List Frame) (b : Addr) : Nat :=
  held.count b + (frames.flatMap Frame.keeps).count b + (frames.flatMap Frame.awaits).count b

theorem toNat_add_one {x : BitVec 8} (room : x ≠ 255) : (x + 1).toNat = x.toNat + 1 := by
  bv_omega

theorem toNat_sub_one {x : BitVec 8} (used : x ≠ 0) : (x - 1).toNat + 1 = x.toNat := by
  bv_omega

@[simp] theorem keeps_ret (value : Option Addr) : (Frame.ret value).keeps = value.toList := by
  cases value <;> rfl

theorem taskRefs_cons (held : List Addr) (f : Frame) (below : List Frame) (b : Addr) :
    taskRefs held (f :: below) b = f.keeps.count b + f.awaits.count b + taskRefs held below b := by
  simp only [taskRefs, List.flatMap_cons, List.count_append]
  omega

/-- Nothing but NULL is returned to a call that uses no buffer. -/
theorem Typed.value_none {value : Option Addr} {g : Frame} {below : List Frame}
    (typed : Typed (.ret value :: g :: below)) (plain : ¬ g.Receives) : value = none := by
  cases value with
  | none => rfl
  | some b => exact absurd (typed.1 trivial g rfl) plain

section Counts

variable {s s' : World τ} {f : Frame} {below : List Frame}

omit [DecidableEq τ] in
theorem count_setHead (a b : Addr) (n : BitVec 8) :
    ((s.setHead a { s.head a with count := n }).head b).count = if b = a then n else (s.head b).count := by
  rw [setHead_head]
  split <;> rfl

omit [DecidableEq τ] in
theorem count_setHead_same (a b : Addr) {h : BufferHead} (same : h.count = (s.head a).count) :
    ((s.setHead a h).head b).count = (s.head b).count := by
  rw [setHead_head]
  split
  next here => rw [here, same]
  next => rfl

/-- A step changes the count of a buffer as it changes the references of the task. -/
theorem count_next (next : Next s f below s') (typed : Typed (f :: below)) (b : Addr)
    (room : ∀ fuel dev block, f = .getblk dev block → s.cache.findBuffer fuel dev block = some (some b) →
      (s.head b).count ≠ 255)
    (used : ∀ dev block, f = .hashWait dev block b → (s.head b).count ≠ 0) :
    (s'.head b).count.toNat + taskRefs (s.held s.running) (f :: below) b =
      (s.head b).count.toNat + taskRefs (s'.held s.running) s'.stack b := by
  -- a count changes where the running task gains or loses a reference, and nowhere else
  cases next with
  | @found dev block _ fuel a hit =>
    by_cases here : b = a
    · subst here
      have := toNat_add_one (room fuel dev block rfl hit)
      simp only [setStack_stack, setStack_head, count_setHead, if_true, setStack_held, setHead_held, taskRefs_cons,
        Frame.keeps, Frame.awaits, List.count_nil, List.count_singleton_self]
      omega
    · simp [count_setHead, here, Ne.symm here, taskRefs_cons, Frame.keeps, Frame.awaits]
  | @moved dev block _ a =>
    by_cases here : b = a
    · subst here
      have := toNat_sub_one (used dev block rfl)
      simp only [setStack_stack, setStack_head, count_setHead, if_true, setStack_held, setHead_held, taskRefs_cons,
        Frame.keeps, Frame.awaits, List.count_nil, List.count_singleton_self]
      omega
    · simp [count_setHead, here, Ne.symm here, taskRefs_cons, Frame.keeps, Frame.awaits]
  | @brelse a _ notFree =>
    by_cases here : b = a
    · subst here
      have := toNat_sub_one notFree
      simp only [setStack_stack, setStack_head, count_setHead, if_true, setStack_held, setHead_held, taskRefs_cons,
        Frame.keeps, Frame.awaits, List.count_nil, List.count_singleton_self]
      omega
    · simp [count_setHead, here, Ne.symm here, taskRefs_cons, Frame.keeps, Frame.awaits]
  -- the victim was free, so the new reference is its only one
  | @claim dev block _ fuel a cache unlocked free clean absent claimed =>
    have spec := Cache.claim_spec claimed
    have head : ∀ b, (({ s with cache }.setStack (.ret (some a) :: below)).head b) = cache.heads b := fun _ => rfl
    by_cases here : b = a
    · subst here
      simp only [head, spec.count, free, setStack_stack, setStack_held, taskRefs_cons,
        Frame.keeps, Frame.awaits, List.count_nil, List.count_singleton_self]
      simp only [show (1 : BitVec 8).toNat = 1 from rfl, show (0 : BitVec 8).toNat = 0 from rfl]
      omega
    · have same : (cache.heads b).count = (s.head b).count := (spec.others b here).2.2.1
      simp [head, same, Ne.symm here, taskRefs_cons, Frame.keeps, Frame.awaits]
  | @handOut value =>
    have empty : taskRefs (s.held s.running) [] b = (s.held s.running).count b := rfl
    have after : taskRefs (value.toList ++ s.held s.running) [] b = value.toList.count b + (s.held s.running).count b :=
      List.count_append
    change _ + _ = _ + taskRefs (Function.update s.held s.running _ s.running) (s.setStack []).stack b
    rw [setStack_stack, Function.update_self, after, taskRefs_cons, keeps_ret, empty]
    rfl
  | @resume value g below plain plain' =>
    have other : ¬ g.Receives := by
      cases g with
      | breadValue => exact absurd rfl plain
      | inodeValue i => exact absurd rfl (plain' i)
      | _ => exact id
    obtain rfl := typed.value_none other
    simp [taskRefs_cons, Frame.keeps, Frame.awaits]
  | breadNull | writeUnlock =>
    obtain rfl := typed.value_none id
    simp [taskRefs_cons, Frame.keeps, Frame.awaits]
  | writeDirty | llLock | queued =>
    rw [setStack_head]
    simp [count_setHead_same, taskRefs_cons, Frame.keeps, Frame.awaits]
  | _ =>
    simp [taskRefs_cons, Frame.keeps, Frame.awaits]

end Counts

theorem entry_refs {held held' : List Addr} (entry : Entry held f held') (b : Addr) :
    taskRefs held' [f] b = taskRefs held [] b := by
  rw [taskRefs_cons]
  cases entry with
  | @brelse a holds =>
    simp only [taskRefs, Frame.keeps, Frame.awaits, List.flatMap_nil, List.count_nil]
    by_cases here : b = a
    · subst here
      have some_left := List.count_pos_iff.mpr holds
      rw [List.count_singleton_self, List.count_erase_self]
      omega
    · rw [List.count_singleton, if_neg (by simpa using Ne.symm here), List.count_erase_of_ne here]
      omega
  | _ => simp [taskRefs, Frame.keeps, Frame.awaits]

/-! ### Every reachable state -/

/-- The tasks, after `initBuffer` with at least one buffer, with any inodes. -/
def tasks : Transition.System (World τ) Event where
  init s := (∃ heads memSize stores, (Cache.boot heads).initBuffer memSize = some (s.cache, stores)) ∧
    1 ≤ s.cache.nrBuffers ∧ ∀ t, s.frames t = [] ∧ s.held t = []
  step := Step

/-- What holds of the queues and the calls, whatever the counts are. -/
structure Sound (s : World τ) : Prop where
  nonempty : 1 ≤ s.cache.nrBuffers
  queues : ∃ free chain, s.cache.Queues s.cache.IsHead free chain
  typed : ∀ t, Typed (s.frames t)
  inside : ∀ t, Inside s.cache.IsHead (s.frames t)
  held : ∀ t, ∀ b ∈ s.held t, s.cache.IsHead b

section Soundness

variable {s s' : World τ} {a : Event}

theorem fresh_init (start : (tasks (τ := τ)).init s) : s.cache.Fresh := by
  obtain ⟨⟨heads, memSize, stores, done⟩, nonempty, _⟩ := start
  exact Cache.fresh_of_initBuffer done nonempty

theorem sound_init (start : (tasks (τ := τ)).init s) : Sound s := by
  have fresh := fresh_init start
  have idle := start.2.2
  constructor
  · exact fresh.nonempty
  · exact fresh.queues
  · intro t
    rw [(idle t).1]
    trivial
  · intro t
    rw [(idle t).1]
    exact fun g member => absurd member List.not_mem_nil
  · intro t b member
    rw [(idle t).2] at member
    cases member

omit [DecidableEq τ] in
theorem Sound.some_head (sound : Sound s) : ∃ a, s.cache.IsHead a :=
  ⟨headAddr 0, 0, sound.nonempty, rfl⟩

theorem Sound.call (sound : Sound s) {f : Frame} {held : List Addr} (entry : Entry (s.held s.running) f held) :
    Sound { s.setStack [f] with held := Function.update s.held s.running held } := by
  have heads : (∀ b ∈ f.buffers, s.cache.IsHead b) ∧ ∀ b ∈ held, s.cache.IsHead b := by
    have old := sound.held s.running
    cases entry with
    | brelse holds =>
      refine ⟨?_, fun b member => old b (List.mem_of_mem_erase member)⟩
      simpa [Frame.buffers, Frame.keeps, Frame.awaits] using old _ holds
    | _ => exact ⟨by simp [Frame.buffers, Frame.keeps, Frame.awaits], old⟩
  refine ⟨sound.nonempty, sound.queues, fun t => ?_, fun t => ?_, fun t => ?_⟩
  -- the other tasks keep their frames and their buffers
  all_goals by_cases here : t = s.running
  · subst here
    simp [setStack, Typed]
  · simpa [setStack, here] using sound.typed t
  · subst here
    simpa [setStack, Inside] using heads.1
  · simpa [setStack, here] using sound.inside t
  · subst here
    simpa [setStack] using heads.2
  · simpa [setStack, here] using sound.held t

theorem Sound.exec (sound : Sound s) {f : Frame} {below : List Frame} (top : s.stack = f :: below)
    (next : Next s f below s') : Sound s' := by
  obtain ⟨running, size, others⟩ := others_next next
  have heads : s'.cache.IsHead = s.cache.IsHead := by
    unfold Cache.IsHead
    rw [size]
  obtain ⟨free, chain, queues⟩ := sound.queues
  have typed := sound.typed s.running
  have inside := sound.inside s.running
  change Typed s.stack at typed
  change Inside _ s.stack at inside
  rw [top] at typed inside
  have stack : s'.frames s.running = s'.stack := by rw [World.stack, running]
  -- the frames of the other tasks stay, and the heads stay the same set
  constructor
  · rw [size]
    exact sound.nonempty
  · rw [heads]
    exact queues_next next queues (inside_cons.mp inside).1
  · intro t
    by_cases here : t = s.running
    · rw [here, stack]
      exact typed_next next typed
    · rw [(others t here).1]
      exact sound.typed t
  · intro t
    rw [heads]
    by_cases here : t = s.running
    · rw [here, stack]
      exact inside_next next queues sound.some_head inside
    · rw [(others t here).1]
      exact sound.inside t
  · intro t
    rw [heads]
    by_cases here : t = s.running
    · intro b member
      rw [here] at member
      rcases held_next next b member with old | handed
      · exact sound.held s.running b old
      · apply (inside_cons.mp inside).1
        rw [handed]
        exact List.mem_singleton_self b
    · rw [(others t here).2]
      exact sound.held t

theorem Sound.step (sound : Sound s) (taken : Step s a s') : Sound s' := by
  obtain ⟨free, chain, queues⟩ := sound.queues
  cases taken with
  | call idle entry => exact sound.call entry
  | exec done =>
    obtain ⟨f, below, top, _, next⟩ := exec_next done
    exact sound.exec top next
  | switch => exact ⟨sound.nonempty, sound.queues, sound.typed, sound.inside, sound.held⟩
  | disk | dirty =>
    exact ⟨sound.nonempty, ⟨free, chain, queues.setHead ⟨rfl, rfl, rfl, rfl, rfl, rfl⟩⟩, sound.typed, sound.inside,
      sound.held⟩
  | inode => exact ⟨sound.nonempty, sound.queues, sound.typed, sound.inside, sound.held⟩

/-- The array of heads stays. -/
theorem isHead_step (taken : Step s a s') : s'.cache.IsHead = s.cache.IsHead := by
  unfold Cache.IsHead
  cases taken with
  | exec done =>
    obtain ⟨f, below, _, _, next⟩ := exec_next done
    rw [(others_next next).2.1]
  | _ => rfl

end Soundness

/-! ### Exact counts -/

variable [Fintype τ]

/-- The hand-outs of `b` that have not been released. -/
def handOuts (s : World τ) (b : Addr) : Nat :=
  ∑ t, ((s.held t).count b + ((s.frames t).flatMap Frame.keeps).count b)

/-- The tasks that wait for `b` in `getHashTable`. -/
def waiters (s : World τ) (b : Addr) : Nat := ∑ t, ((s.frames t).flatMap Frame.awaits).count b

/-- Every count is exact, a buffer becomes the victim only when nobody holds it
or waits for it, and `brelse` finds no free buffer. -/
structure Counted (s : World τ) : Prop where
  exact : ∀ b, s.cache.IsHead b → (s.head b).count.toNat = s.handOuts b + s.waiters b
  victim : ∀ dev block b below, s.stack = .victim dev block b :: below → (s.head b).count = 0 →
    s.handOuts b = 0 ∧ s.waiters b = 0
  release : ∀ b below, s.stack = .brelse b :: below → (s.head b).count ≠ 0

/-- `getHashTable` does not raise a count of 255. -/
def HasRoom (s : World τ) (a : Event) : Prop :=
  a = .exec → ∀ fuel dev block b below, s.stack = .getblk dev block :: below →
    s.cache.findBuffer fuel dev block = some (some b) → (s.head b).count ≠ 255

omit [DecidableEq τ] in
theorem refs_eq (s : World τ) (b : Addr) :
    s.handOuts b + s.waiters b = ∑ t, taskRefs (s.held t) (s.frames t) b :=
  Finset.sum_add_distrib.symm

/-- Only the references of one task change. -/
theorem refs_step {s s' : World τ} {r : τ} (b : Addr)
    (others : ∀ t, t ≠ r → s'.frames t = s.frames t ∧ s'.held t = s.held t) :
    s'.handOuts b + s'.waiters b + taskRefs (s.held r) (s.frames r) b =
      s.handOuts b + s.waiters b + taskRefs (s'.held r) (s'.frames r) b := by
  have rest : ∑ t ∈ Finset.univ.erase r, taskRefs (s'.held t) (s'.frames t) b =
      ∑ t ∈ Finset.univ.erase r, taskRefs (s.held t) (s.frames t) b := by
    apply Finset.sum_congr rfl
    intro t member
    obtain ⟨frames, held⟩ := others t (Finset.ne_of_mem_erase member)
    rw [frames, held]
  rw [refs_eq, refs_eq, ← Finset.add_sum_erase _ _ (Finset.mem_univ r),
    ← Finset.add_sum_erase Finset.univ (fun t => taskRefs (s.held t) (s.frames t) b) (Finset.mem_univ r), rest]
  omega

section Exact

variable {s s' : World τ} {a : Event} {b : Addr} {f : Frame} {below : List Frame}

omit [DecidableEq τ] in
theorem handOuts_pos (top : s.stack = f :: below) (keeps : b ∈ f.keeps) : 0 < s.handOuts b := by
  have here : 0 < ((s.frames s.running).flatMap Frame.keeps).count b := by
    rw [show s.frames s.running = f :: below from top, List.flatMap_cons, List.count_append]
    have := List.count_pos_iff.mpr keeps
    omega
  have term := Finset.single_le_sum (f := fun t => (s.held t).count b + ((s.frames t).flatMap Frame.keeps).count b)
    (fun t _ => Nat.zero_le _) (Finset.mem_univ s.running)
  exact Nat.lt_of_lt_of_le (by omega) term

omit [DecidableEq τ] in
theorem waiters_pos (top : s.stack = f :: below) (awaits : b ∈ f.awaits) : 0 < s.waiters b := by
  have here : 0 < ((s.frames s.running).flatMap Frame.awaits).count b := by
    rw [show s.frames s.running = f :: below from top, List.flatMap_cons, List.count_append]
    have := List.count_pos_iff.mpr awaits
    omega
  exact Nat.lt_of_lt_of_le here (Finset.single_le_sum (f := fun t => ((s.frames t).flatMap Frame.awaits).count b)
    (fun t _ => Nat.zero_le _) (Finset.mem_univ s.running))

/-- Every count is the number of references. -/
def Exact (s : World τ) : Prop :=
  ∀ b, s.cache.IsHead b → (s.head b).count.toNat = s.handOuts b + s.waiters b

omit [DecidableEq τ] in
theorem Exact.counted (exact : Exact s) (sound : Sound s) : Counted s := by
  have head : ∀ {f below}, s.stack = f :: below → ∀ b ∈ f.buffers, s.cache.IsHead b := by
    intro f below top b member
    have inside := sound.inside s.running
    rw [show s.frames s.running = f :: below from top] at inside
    exact (inside_cons.mp inside).1 b member
  refine ⟨exact, fun dev block b below top free => ?_, fun b below top free => ?_⟩
  · have counts := exact b (head top b (List.mem_singleton_self b))
    rw [free] at counts
    change 0 = _ at counts
    omega
  · have counts := exact b (head top b (List.mem_singleton_self b))
    have held := handOuts_pos top (List.mem_singleton_self b)
    rw [free] at counts
    change 0 = _ at counts
    omega

theorem exact_init (start : (tasks (τ := τ)).init s) : Exact s := by
  intro b isHead
  have free : (s.head b).count = 0 := ((fresh_init start).unused b isHead).2.1
  simp [free, handOuts, waiters, start.2.2]

theorem Exact.exec (exact : Exact s) (sound : Sound s) (top : s.stack = f :: below) (next : Next s f below s')
    (room : ∀ b fuel dev block, f = .getblk dev block → s.cache.findBuffer fuel dev block = some (some b) →
      (s.head b).count ≠ 255) : Exact s' := by
  intro b isHead
  obtain ⟨running, size, others⟩ := others_next next
  have isHead' : s.cache.IsHead b := by
    unfold Cache.IsHead at isHead ⊢
    rwa [size] at isHead
  have typed := sound.typed s.running
  rw [show s.frames s.running = f :: below from top] at typed
  have refs := refs_step b others
  have used : ∀ dev block, f = .hashWait dev block b → (s.head b).count ≠ 0 := by
    rintro dev block rfl zero
    have waits := waiters_pos top (List.mem_singleton_self b)
    have counts := exact b isHead'
    rw [zero] at counts
    change 0 = _ at counts
    omega
  have count := count_next next typed b (room b) used
  rw [show s.frames s.running = f :: below from top,
    show s'.frames s.running = s'.stack by rw [World.stack, running]] at refs
  have before := exact b isHead'
  omega

theorem Exact.step (exact : Exact s) (sound : Sound s) (taken : Step s a s') (room : HasRoom s a) : Exact s' := by
  cases taken with
  | @call f held idle entry =>
    intro b isHead
    -- the new frame holds what its entry takes over from the task
    generalize state : ({ s.setStack [f] with held := Function.update s.held s.running held } : World τ) = s'
    have frames : s'.frames = Function.update s.frames s.running [f] := by rw [← state]; rfl
    have holds : s'.held = Function.update s.held s.running held := by rw [← state]
    have head : s'.head b = s.head b := by rw [← state]; rfl
    have refs := refs_step (r := s.running) b fun t other =>
      show s'.frames t = s.frames t ∧ s'.held t = s.held t by
        rw [frames, holds, Function.update_of_ne other, Function.update_of_ne other]
        exact ⟨rfl, rfl⟩
    have same := entry_refs entry b
    have before := exact b isHead
    rw [frames, holds, Function.update_self, Function.update_self, show s.frames s.running = [] from idle] at refs
    rw [head]
    omega
  | exec done =>
    obtain ⟨f, below, top, _, next⟩ := exec_next done
    apply exact.exec sound top next
    rintro b fuel dev block rfl hit
    exact room rfl fuel dev block b below top hit
  | switch => exact exact
  | @disk b uptodate locked =>
    intro b' isHead
    have before := exact b' isHead
    rwa [← count_setHead_same b b' (h := { s.head b with uptodate, lock := false }) rfl] at before
  | @dirty b holds =>
    intro b' isHead
    have before := exact b' isHead
    rwa [← count_setHead_same b b' (h := { s.head b with dirt := true }) rfl] at before
  | inode => exact exact

/-- A count of 255 that is raised is lost. -/
theorem Sound.lost (sound : Sound s) (taken : Step s a s') (full : ¬ HasRoom s a) : ¬ Counted s' := by
  simp only [HasRoom, Classical.not_imp, not_forall, not_not] at full
  obtain ⟨rfl, fuel, dev, block, b, below, top, hit, count⟩ := full
  obtain ⟨free, chain, queues⟩ := sound.queues
  have isHead := (queues.findBuffer_hit hit).1
  cases taken with
  | exec done =>
    obtain ⟨f, below', top', _, next⟩ := exec_next done
    obtain ⟨rfl, rfl⟩ := List.cons.inj (top.symm.trans top')
    intro counted
    cases next with
    | @found _ _ _ fuel' a hit' =>
      obtain rfl : a = b := Option.some.inj (Cache.findBufferLoop_unique hit' hit)
      have counts := counted.exact a isHead
      have top' : ((s.setHead a { s.head a with count := (s.head a).count + 1 }).setStack
          (.hashWait dev block a :: below)).stack = .hashWait dev block a :: below := setStack_stack
      -- the 256th user is at the buffer, and its count is 0
      have waits := waiters_pos top' (List.mem_singleton_self a)
      rw [setStack_head, count_setHead, if_pos rfl, count] at counts
      exact Nat.ne_of_gt waits (Nat.add_eq_zero_iff.mp counts.symm).2
    | chosen absent | full absent => cases Cache.findBufferLoop_unique absent hit

end Exact

/-- The counts are exact all along a run if and only if `getHashTable` never
raises a count of 255. -/
theorem counted_iff {hist : List (World τ × Event)} {s : World τ} (run : Transition.Run tasks hist s) :
    ((∀ x ∈ hist, Counted x.1) ∧ Counted s) ↔ ∀ x ∈ hist, HasRoom x.1 x.2 := by
  apply run.guard_iff (I := fun s => Sound s ∧ Exact s)
  · exact fun s start => ⟨sound_init start, exact_init start⟩
  · exact fun s a s' holds taken room => ⟨holds.1.step taken, holds.2.step holds.1 taken room⟩
  · exact fun s holds => holds.2.counted holds.1
  · exact fun s a s' holds taken full => holds.1.lost taken full

/-! ### One buffer handed out 256 times -/

section Running

variable {s : World τ} {fuel : Nat} {dev block : BitVec 32} {b : Addr} {below : List Frame}

omit [Fintype τ]

theorem exec_getblk (top : s.stack = .getblk dev block :: below) :
    s.exec fuel = s.getblkStep fuel dev block below := by
  simp only [World.exec, top]
  exact if_neg (fun waits => waits)

theorem exec_hashWait (top : s.stack = .hashWait dev block b :: below) (unlocked : (s.head b).lock = false) :
    s.exec fuel = some (s.hashStep dev block b below) := by
  simp only [World.exec, top]
  exact if_neg (by simp [Waits, unlocked])

theorem exec_victim (top : s.stack = .victim dev block b :: below) (unlocked : (s.head b).lock = false) :
    s.exec fuel = s.victimStep fuel dev block b below := by
  simp only [World.exec, top]
  exact if_neg (by simp [Waits, unlocked])

theorem exec_ret {value : Option Addr} (top : s.stack = .ret value :: below) :
    s.exec fuel = s.resume value below := by
  simp only [World.exec, top]
  exact if_neg (fun waits => waits)

end Running

/-- A state with one task, and with nothing but the cache to use. -/
def only (c : Cache) (frames : List Frame) (held : List Addr) : World Unit where
  cache := c
  inodes _ := ⟨0, 0, false, false, false⟩
  superBlk _ := none
  requestFn _ := false
  frames _ := frames
  held _ := held
  running := ()

theorem update_unit {α : Type} (f : Unit → α) (v : α) : Function.update f () v = fun _ => v :=
  funext fun _ => Function.update_self ..

theorem only_setStack (c : Cache) (frames frames' : List Frame) (held : List Addr) :
    (only c frames held).setStack frames' = only c frames' held := by
  simp only [setStack, only, update_unit]

theorem call_getblk {c : Cache} {held : List Addr} {hist : List (World Unit × Event)}
    (run : Transition.Run tasks hist (only c [] held)) :
    Transition.Run tasks ((only c [] held, .call) :: hist) (only c [.getblk 0x300 5] held) := by
  have called := run.step (.call (f := .getblk 0x300 5) rfl .getblk)
  rw [Function.update_eq_self, only_setStack] at called
  exact called

theorem exec_handOut (c : Cache) (held : List Addr) : (only c [.ret (some (headAddr 0))] held).exec 1 =
    some (only c [] (headAddr 0 :: held)) := by
  rw [exec_ret rfl]
  simp only [World.resume, only_setStack]
  simp only [only, update_unit]
  rfl

/-- The first buffer has been handed out `k` times, and is not locked. -/
structure Shared (k : Nat) (c : Cache) : Prop where
  table : c.hashTable (hashfn 0x300 5) = some (headAddr 0)
  dev : (c.heads (headAddr 0)).dev = 0x300
  blockNr : (c.heads (headAddr 0)).blockNr = 5
  lock : (c.heads (headAddr 0)).lock = false
  count : (c.heads (headAddr 0)).count = BitVec.ofNat 8 k

/-- A state on the way through these calls, with at most `n` buffers held. -/
def Calling (n : Nat) (s : World Unit) : Prop :=
  ∃ c frames held, s = only c frames held ∧ held.length ≤ n ∧
    frames ∈ [[], [.getblk 0x300 5], [.victim 0x300 5 (headAddr 0)], [.hashWait 0x300 5 (headAddr 0)],
      [.ret (some (headAddr 0))]]

/-- The task asks for the block once more. -/
theorem Shared.again {k n : Nat} {c : Cache} {held : List Addr} {hist : List (World Unit × Event)}
    (shared : Shared k c) (run : Transition.Run tasks hist (only c [] held)) (few : held.length ≤ n)
    (before : ∀ x ∈ hist, Calling n x.1) :
    ∃ hist' c', Transition.Run tasks hist' (only c' [] (headAddr 0 :: held)) ∧ Shared (k + 1) c' ∧
      ∀ x ∈ hist', Calling n x.1 := by
  have id : (c.heads (headAddr 0)).dev.setWidth 32 = (0x300 : BitVec 32) ∧ (c.heads (headAddr 0)).blockNr = 5 := by
    rw [shared.dev]
    exact ⟨rfl, shared.blockNr⟩
  have hit : c.findBuffer 1 0x300 5 = some (some (headAddr 0)) := by
    change c.findBufferLoop _ _ 1 (c.hashTable (hashfn 0x300 5)) = _
    rw [shared.table, Cache.findBufferLoop, if_pos id]
  generalize next : c.setHead (headAddr 0) { c.heads (headAddr 0) with
    count := (c.heads (headAddr 0)).count + 1 } = c'
  have head : c'.heads (headAddr 0) = { c.heads (headAddr 0) with count := (c.heads (headAddr 0)).count + 1 } := by
    rw [← next, Cache.setHead_heads, if_pos rfl]
  -- the block is in the cache: the search hits, the count rises, and the buffer is handed out
  have found : (only c [.getblk 0x300 5] held).exec 1 = some (only c' [.hashWait 0x300 5 (headAddr 0)] held) := by
    rw [exec_getblk rfl]
    change (c.findBuffer 1 0x300 5).bind _ = _
    rw [hit, ← next]
    exact congrArg some (only_setStack _ _ _ _)
  have matched : (only c' [.hashWait 0x300 5 (headAddr 0)] held).exec 1 =
      some (only c' [.ret (some (headAddr 0))] held) := by
    have unlocked : (c'.heads (headAddr 0)).lock = false := by rw [head]; exact shared.lock
    have id' : (c'.heads (headAddr 0)).dev.setWidth 32 = (0x300 : BitVec 32) ∧
        (c'.heads (headAddr 0)).blockNr = 5 := by rw [head]; exact id
    rw [exec_hashWait (s := only c' [.hashWait 0x300 5 (headAddr 0)] held) rfl unlocked]
    exact congrArg some ((if_pos id').trans (only_setStack _ _ _ _))
  have handed := exec_handOut c' held
  refine ⟨_, c', (((call_getblk run).step (.exec found)).step (.exec matched)).step (.exec handed), ?_, ?_⟩
  swap
  · simp only [List.forall_mem_cons]
    exact ⟨⟨_, _, _, rfl, few, by simp⟩, ⟨_, _, _, rfl, few, by simp⟩, ⟨_, _, _, rfl, few, by simp⟩,
      ⟨_, _, _, rfl, few, by simp⟩, before⟩
  constructor
  · rw [← next]
    exact shared.table
  · rw [head]
    exact shared.dev
  · rw [head]
    exact shared.blockNr
  · rw [head]
    exact shared.lock
  · rw [head, BitVec.ofNat_add]
    exact congrArg (· + 1) shared.count

/-- The smallest memory with a buffer. -/
theorem exists_start : ∃ c : Cache, tasks.init (only c [] []) ∧ (∀ k, c.hashTable k = none) ∧
    c.freeList = headAddr 0 := by
  have size : Mm.installed 0x402000 = 0x402000 := by decide
  have enough : 0x400000 ≤ Mm.installed 0x402000 := by rw [size]; decide
  have fits : startBufferAddr + (sizeofHead + blockSize) * 1 ≤ Mm.installed 0x402000 / 4 := by rw [size]; decide
  have full : Mm.installed 0x402000 / 4 < startBufferAddr + (sizeofHead + blockSize) * (1 + 1) := by
    rw [size]
    decide
  obtain ⟨c, stores, done, rounds, _⟩ := Cache.initBuffer_spec
    (fun _ => ⟨0, 0, 0, false, false, 0, false, none, none, none, none⟩) enough fits full
  have one : (c.closeRing (headAddr 1 - sizeofHead)).nrBuffers = 1 := rounds.count
  exact ⟨_, ⟨⟨_, _, _, done⟩, Nat.le_of_eq one.symm, fun _ => ⟨rfl, rfl⟩⟩, fun _ => rfl, rfl⟩

/-- The task asks for the block for the first time. -/
theorem exists_chosen : ∃ hist c, Transition.Run tasks hist (only c [.victim 0x300 5 (headAddr 0)] []) ∧
    c.Fresh ∧ (∀ k, c.hashTable k = none) ∧ ∀ x ∈ hist, Calling 0 x.1 := by
  obtain ⟨cache, start, empty, first⟩ := exists_start
  have fresh : cache.Fresh := fresh_init start
  obtain ⟨_, unused, clean, unlocked, _⟩ := fresh.unused _ ⟨0, fresh.nonempty, rfl⟩
  have best : cache.victim 1 = some (some (headAddr 0)) := by
    simp [Cache.victim, Cache.victimLoop, first, unused, Cache.better, Cache.badness, clean, unlocked]
  have chosen : (only cache [.getblk 0x300 5] []).exec 1 = some (only cache [.victim 0x300 5 (headAddr 0)] []) := by
    rw [exec_getblk rfl]
    change (cache.findBuffer 1 0x300 5).bind _ = _
    rw [Cache.findBuffer, empty]
    change (cache.victim 1).bind _ = _
    rw [best]
    exact congrArg some (only_setStack _ _ _ _)
  refine ⟨_, cache, (call_getblk (.init start)).step (.exec chosen), fresh, empty, ?_⟩
  simp only [List.forall_mem_cons]
  exact ⟨⟨_, _, _, rfl, le_refl 0, by simp⟩, ⟨_, _, _, rfl, le_refl 0, by simp⟩, List.forall_mem_nil _⟩

theorem exists_shared : ∃ hist c, Transition.Run tasks hist (only c [] [headAddr 0]) ∧ Shared 1 c ∧
    ∀ x ∈ hist, Calling 0 x.1 := by
  obtain ⟨hist, cache, run, fresh, empty, before⟩ := exists_chosen
  obtain ⟨free, chain, queues⟩ := fresh.queues
  obtain ⟨_, unused, clean, unlocked, _⟩ := fresh.unused _ ⟨0, fresh.nonempty, rfl⟩
  obtain ⟨cache', claimed⟩ := Cache.claim_isSome queues ⟨0, fresh.nonempty, rfl⟩ 0x300 5
  have spec := Cache.claim_spec claimed
  have claims : (only cache [.victim 0x300 5 (headAddr 0)] []).exec 1 =
      some (only cache' [.ret (some (headAddr 0))] []) := by
    have clean' : ¬ (cache.heads (headAddr 0)).dirt = true := by rw [clean]; exact Bool.false_ne_true
    rw [exec_victim (s := only cache [.victim 0x300 5 (headAddr 0)] []) rfl unlocked]
    refine (if_neg (not_not.mpr unused)).trans ((if_neg clean').trans ?_)
    change (cache.findBuffer 1 0x300 5).bind _ = _
    rw [Cache.findBuffer, empty]
    change (cache.claim (headAddr 0) 0x300 5).bind _ = _
    rw [claimed]
    exact congrArg some (only_setStack cache' _ _ _)
  have handed := exec_handOut cache' []
  have named : (0x300 : BitVec 32).setWidth 16 = (0x300 : BitVec 16) := rfl
  refine ⟨_, cache', (run.step (.exec claims)).step (.exec handed), ?_, ?_⟩
  swap
  · simp only [List.forall_mem_cons]
    exact ⟨⟨_, _, _, rfl, le_refl 0, by simp⟩, ⟨_, _, _, rfl, le_refl 0, by simp⟩, before⟩
  constructor
  · rw [← named]
    exact Cache.claim_first claimed (by decide)
  · exact spec.dev
  · exact spec.blockNr
  · exact (spec.lock _).trans unlocked
  · exact spec.count

theorem not_counted : ∃ hist s, Transition.Run (tasks (τ := Unit)) hist s ∧ ¬ Counted s := by
  have all : ∀ k, ∃ hist c, Transition.Run tasks hist (only c [] (List.replicate (k + 1) (headAddr 0))) ∧
      Shared (k + 1) c ∧ ∀ x ∈ hist, Calling k x.1 := by
    intro k
    induction k with
    | zero => exact exists_shared
    | succ k ih =>
      obtain ⟨hist, c, run, shared, before⟩ := ih
      refine shared.again run (by rw [List.length_replicate]) fun x member => ?_
      obtain ⟨c, frames, held, same, few, frame⟩ := before x member
      exact ⟨c, frames, held, same, Nat.le_succ_of_le few, frame⟩
  -- 256 calls have the buffer, and its count is 0
  obtain ⟨hist, c, run, shared, _⟩ := all 255
  refine ⟨hist, _, run, fun counted => ?_⟩
  have sound : Sound (only c [] (List.replicate 256 (headAddr 0))) :=
    Transition.Reachable.invariant (fun _ => sound_init) (fun _ _ _ => Sound.step) ⟨hist, run⟩
  have counts := counted.exact (headAddr 0) ⟨0, sound.nonempty, rfl⟩
  have zero : ((only c [] (List.replicate 256 (headAddr 0))).head (headAddr 0)).count.toNat = 0 :=
    congrArg BitVec.toNat shared.count
  have all : (only c [] (List.replicate 256 (headAddr 0))).handOuts (headAddr 0) = 256 := by
    rw [handOuts, Finset.univ_unique, Finset.sum_singleton]
    change List.count _ (List.replicate 256 _) + 0 = 256
    rw [List.count_replicate_self]
  rw [zero, all] at counts
  omega

theorem counted_iff_shared : ∃ hist c, Transition.Run tasks hist (only c [] [headAddr 0]) ∧
    (((∀ x ∈ hist, Counted x.1) ∧ Counted (only c [] [headAddr 0])) ↔ ∀ x ∈ hist, HasRoom x.1 x.2) := by
  obtain ⟨hist, c, run, _⟩ := exists_shared
  exact ⟨hist, c, run, counted_iff run⟩

end World

end OperatorSystem.Fs
