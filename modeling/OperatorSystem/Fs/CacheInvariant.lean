import OperatorSystem.Fs.References

/-!
# The invariant of the buffer cache

With at most 255 references to a buffer its count is exact, so only a buffer
that nobody uses gets a new identity, and only one that no other buffer has.
-/

namespace OperatorSystem.Fs

namespace Frame

/-- The block that a call of `getblk` is asked for. -/
def asks : Frame → Option (BitVec 32 × BitVec 32)
  | .getblk dev block | .hashWait dev block _ | .bufferWait dev block | .victim dev block _ => some (dev, block)
  | _ => none

end Frame

namespace World

variable {τ : Type} [DecidableEq τ] [Fintype τ]

/-- The calls of `getblk` are for device numbers, and no buffer has more than
255 references. -/
structure Admissible (s : World τ) : Prop where
  device : ∀ t, ∀ f ∈ s.frames t, ∀ dev block, f.asks = some (dev, block) → dev.toNat ≤ 65535
  few : ∀ b, s.cache.IsHead b → s.handOuts b + s.waiters b ≤ 255

/-- The queues and identities are well formed, `getblk` hands out the buffer of
the block it was asked for, with a reference, and a buffer in use keeps its
identity. -/
structure CacheSound (s : World τ) : Prop where
  wellFormed : s.cache.WellFormed
  handOut : ∀ fuel s' f below dev block b, s.stack = f :: below → f.asks = some (dev, block) →
    s.exec fuel = some s' → s'.stack = .ret (some b) :: below → s'.cache.IsHead b ∧
      (s'.head b).dev.setWidth 32 = dev ∧ (s'.head b).blockNr = block ∧ (s'.head b).count ≠ 0
  keeps : ∀ a s' b, Step s a s' → s.cache.IsHead b → (s.head b).count ≠ 0 →
    (s'.head b).dev = (s.head b).dev ∧ (s'.head b).blockNr = (s.head b).blockNr

section Steps

variable {s s' : World τ} {f : Frame} {below : List Frame} {a : Event} {b : Addr}

omit [Fintype τ]

theorem setWidth_of_le {dev : BitVec 32} (device : dev.toNat ≤ 65535) : (dev.setWidth 16).setWidth 32 = dev := by
  apply BitVec.eq_of_toNat_eq
  simp only [BitVec.toNat_setWidth]
  omega

/-- A step gives at most one buffer a new identity, a free one. -/
theorem identity_next (next : Next s f below s') (b : Addr) :
    ((s'.head b).dev = (s.head b).dev ∧ (s'.head b).blockNr = (s.head b).blockNr) ∨
      ∃ dev block, f = .victim dev block b ∧ (s.head b).count = 0 ∧
        (s'.head b).dev = dev.setWidth 16 ∧ (s'.head b).blockNr = block ∧
        ∃ fuel, s.cache.findBuffer fuel dev block = some none := by
  cases next with
  | @claim dev block _ fuel c cache unlocked free clean absent claimed =>
    have spec := Cache.claim_spec claimed
    -- the claimed buffer takes the identity of the call, the others keep theirs
    by_cases here : b = c
    · subst here
      exact .inr ⟨dev, block, rfl, free, spec.dev, spec.blockNr, fuel, absent⟩
    · have same := spec.others b here
      exact .inl ⟨same.1, same.2.1⟩
  | found | moved | brelse | writeDirty | llLock | queued =>
    left
    simp only [setStack_head, setInode_head, setHead_head]
    split
    next here =>
      rw [here]
      exact ⟨rfl, rfl⟩
    next => exact ⟨rfl, rfl⟩
  | _ => exact .inl ⟨rfl, rfl⟩

omit [DecidableEq τ] in
theorem identity_setHead {h : BufferHead} (c b : Addr)
    (same : h.dev = (s.head c).dev ∧ h.blockNr = (s.head c).blockNr) :
    ((s.setHead c h).head b).dev = (s.head b).dev ∧ ((s.setHead c h).head b).blockNr = (s.head b).blockNr := by
  rw [setHead_head]
  split
  next here =>
    rw [here]
    exact same
  next => exact ⟨rfl, rfl⟩

theorem identity_step (taken : Step s a s') (b : Addr) :
    ((s'.head b).dev = (s.head b).dev ∧ (s'.head b).blockNr = (s.head b).blockNr) ∨
      ∃ dev block below, s.stack = .victim dev block b :: below ∧ (s.head b).count = 0 ∧
        (s'.head b).dev = dev.setWidth 16 ∧ (s'.head b).blockNr = block ∧
        ∃ fuel, s.cache.findBuffer fuel dev block = some none := by
  cases taken with
  | exec done =>
    obtain ⟨f, below, top, _, next⟩ := exec_next done
    rcases identity_next next b with same | ⟨dev, block, rfl, renamed⟩
    · exact .inl same
    · exact .inr ⟨dev, block, below, top, renamed⟩
  | disk | dirty => exact .inl (identity_setHead _ b ⟨rfl, rfl⟩)
  | call | switch | inode => exact .inl ⟨rfl, rfl⟩

omit [DecidableEq τ] in
/-- No buffer has the identity that `getblk` is about to give to its victim. -/
theorem Sound.absent (sound : Sound s) {fuel : Nat} {dev block : BitVec 32} (device : dev.toNat ≤ 65535)
    (miss : s.cache.findBuffer fuel dev block = some none) (isHead : s.cache.IsHead b)
    (used : (s.head b).dev ≠ 0) : ¬ ((s.head b).dev = dev.setWidth 16 ∧ (s.head b).blockNr = block) := by
  obtain ⟨free, chain, queues⟩ := sound.queues
  rintro ⟨sameDev, sameBlock⟩
  apply queues.findBuffer_miss miss isHead used
  change (s.head b).dev.setWidth 32 = dev ∧ (s.head b).blockNr = block
  rw [sameDev, setWidth_of_le device]
  exact ⟨rfl, sameBlock⟩

theorem wellFormed_step (sound : Sound s) (wellFormed : s.cache.WellFormed) (taken : Step s a s')
    (device : ∀ f below dev block, s.stack = f :: below → f.asks = some (dev, block) → dev.toNat ≤ 65535) :
    s'.cache.WellFormed := by
  have sound' := sound.step taken
  refine ⟨sound'.queues, fun x y isHead isHead' used sameDev sameBlock => ?_⟩
  change (s'.head x).dev ≠ 0 at used
  change (s'.head y).dev = (s'.head x).dev at sameDev
  change (s'.head y).blockNr = (s'.head x).blockNr at sameBlock
  rw [isHead_step taken] at isHead isHead'
  -- two heads collide only if one of them has just taken a block that the search had missed
  rcases identity_step taken x with ⟨devx, blockx⟩ | ⟨dev, block, below, top, _, devx, blockx, fuel, miss⟩
  · rcases identity_step taken y with ⟨devy, blocky⟩ | ⟨dev, block, below, top, _, devy, blocky, fuel, miss⟩
    · rw [devx] at used
      exact wellFormed.identity x y isHead isHead' used (devy.symm.trans (sameDev.trans devx))
        (blocky.symm.trans (sameBlock.trans blockx))
    · rw [devx] at used
      refine absurd ?_ (sound.absent (device _ _ dev block top rfl) miss isHead used)
      exact ⟨by rw [← devx, ← sameDev, devy], by rw [← blockx, ← sameBlock, blocky]⟩
  · rcases identity_step taken y with ⟨devy, blocky⟩ | ⟨dev', block', below', top', _⟩
    · rw [← sameDev, devy] at used
      refine absurd ?_ (sound.absent (device _ _ dev block top rfl) miss isHead' used)
      exact ⟨by rw [← devy, sameDev, devx], by rw [← blocky, sameBlock, blockx]⟩
    · obtain ⟨same, _⟩ := List.cons.inj (top.symm.trans top')
      exact (Frame.victim.inj same).2.2.symm

end Steps

section Invariant

variable {s s' : World τ} {a : Event} {b : Addr}

/-- A step to a state without more than 255 references raises no count of 255. -/
theorem hasRoom_of_few (sound : Sound s) (exact : Exact s) (taken : Step s a s')
    (few : ∀ b, s'.cache.IsHead b → s'.handOuts b + s'.waiters b ≤ 255) : HasRoom s a := by
  rintro rfl fuel dev block b below top hit full
  obtain ⟨free, chain, queues⟩ := sound.queues
  have isHead := (queues.findBuffer_hit hit).1
  have before := exact b isHead
  have after := few b (by rw [isHead_step taken]; exact isHead)
  cases taken with
  | exec done =>
    obtain ⟨f, below', top', _, next⟩ := exec_next done
    obtain ⟨rfl, rfl⟩ := List.cons.inj (top.symm.trans top')
    have refs := refs_step b (others_next next).2.2
    -- the step would make the 256th reference
    have one : taskRefs (s'.held s.running) (s'.frames s.running) b =
        taskRefs (s.held s.running) (s.frames s.running) b + 1 := by
      rw [show s.frames s.running = _ from top]
      cases next with
      | @found _ _ _ fuel' c hit' =>
        obtain rfl : c = b := Option.some.inj (Cache.findBufferLoop_unique hit' hit)
        have stack : ((s.setHead c { s.head c with count := (s.head c).count + 1 }).setStack
            (.hashWait dev block c :: below)).frames s.running = .hashWait dev block c :: below := setStack_stack
        rw [stack, setStack_held, setHead_held, taskRefs_cons, taskRefs_cons]
        simp only [Frame.keeps, Frame.awaits, List.count_nil, List.count_singleton_self]
        omega
      | chosen absent | full absent => cases Cache.findBufferLoop_unique absent hit
    rw [full] at before
    change 255 = _ at before
    omega

/-- What `getblk` hands out is the block it was asked for, with a reference. -/
theorem handOut_exec (sound : Sound s) (exact : Exact s) {fuel : Nat} {f : Frame} {below : List Frame}
    {dev block : BitVec 32} (top : s.stack = f :: below) (asks : f.asks = some (dev, block))
    (device : dev.toNat ≤ 65535) (done : s.exec fuel = some s') (handed : s'.stack = .ret (some b) :: below) :
    s'.cache.IsHead b ∧ (s'.head b).dev.setWidth 32 = dev ∧ (s'.head b).blockNr = block ∧
      (s'.head b).count ≠ 0 := by
  have isHead : s'.cache.IsHead b := by
    have inside := (sound.step (.exec done)).inside s'.running
    rw [show s'.frames s'.running = _ from handed] at inside
    exact (inside_cons.mp inside).1 b (List.mem_singleton_self b)
  refine ⟨isHead, ?_⟩
  rw [isHead_step (.exec done)] at isHead
  obtain ⟨f', below', top', _, next⟩ := exec_next done
  obtain ⟨rfl, rfl⟩ := List.cons.inj (top.symm.trans top')
  -- only a hit that still fits and a claimed victim return a buffer
  cases next with
  | @matched dev' block' _ c id =>
    rw [setStack_stack] at handed
    obtain ⟨same, _⟩ := List.cons.inj handed
    obtain rfl : c = b := Option.some.inj (Frame.ret.inj same)
    obtain ⟨rfl, rfl⟩ := Prod.mk.inj (Option.some.inj asks)
    refine ⟨id.1, id.2, fun zero => ?_⟩
    have waits := waiters_pos top (List.mem_singleton_self c)
    have counts := exact c isHead
    rw [show (s.head c).count = 0 from zero] at counts
    exact Nat.ne_of_gt waits (Nat.add_eq_zero_iff.mp counts.symm).2
  | @claim dev' block' _ fuel' c cache unlocked free clean absent claimed =>
    rw [setStack_stack] at handed
    obtain ⟨same, _⟩ := List.cons.inj handed
    obtain rfl : c = b := Option.some.inj (Frame.ret.inj same)
    obtain ⟨rfl, rfl⟩ := Prod.mk.inj (Option.some.inj asks)
    have spec := Cache.claim_spec claimed
    change (cache.heads c).dev.setWidth 32 = dev' ∧ (cache.heads c).blockNr = block' ∧ (cache.heads c).count ≠ 0
    rw [spec.dev, spec.blockNr, spec.count]
    exact ⟨setWidth_of_le device, rfl, by decide⟩
  | found | chosen | full | moved | retry | again | dirty =>
    rw [setStack_stack] at handed
    simp at handed
  | _ => cases asks

omit [Fintype τ] in
/-- A buffer with a reference keeps its identity. -/
theorem keeps_step (taken : Step s a s') (used : (s.head b).count ≠ 0) :
    (s'.head b).dev = (s.head b).dev ∧ (s'.head b).blockNr = (s.head b).blockNr := by
  rcases identity_step taken b with same | ⟨_, _, _, _, free, _⟩
  · exact same
  · exact absurd free used

end Invariant

/-- The cache is sound in every state of a run with at most 255 references to
each buffer. -/
theorem cacheSound_of_run {hist : List (World τ × Event)} {s : World τ} (run : Transition.Run tasks hist s)
    (before : ∀ x ∈ hist, Admissible x.1) (now : Admissible s) : CacheSound s := by
  have holds : Sound s ∧ Exact s ∧ s.cache.WellFormed := by
    induction run with
    | init start =>
      have fresh := fresh_init start
      refine ⟨sound_init start, exact_init start, fresh.queues, fun a b isHead _ used => ?_⟩
      exact absurd (fresh.unused a isHead).1 used
    | @step hist s s' a run taken ih =>
      obtain ⟨here, earlier⟩ := List.forall_mem_cons.mp before
      obtain ⟨sound, exact, wellFormed⟩ := ih earlier here
      have room := hasRoom_of_few sound exact taken now.few
      refine ⟨sound.step taken, exact.step sound taken room, wellFormed_step sound wellFormed taken ?_⟩
      intro f below dev block top asks
      exact here.device s.running f (by rw [show s.frames s.running = _ from top]; simp) dev block asks
  -- both properties of a step follow from the invariants before it
  obtain ⟨sound, exact, wellFormed⟩ := holds
  refine ⟨wellFormed, ?_, ?_⟩
  · intro fuel s' f below dev block b top asks done handed
    have device := now.device s.running f (by rw [show s.frames s.running = _ from top]; simp) dev block asks
    exact handOut_exec sound exact top asks device done handed
  · intro a s' b taken _ used
    exact keeps_step taken used

/-- The states of a task that calls `getblk` for one block. -/
theorem Calling.admissible {n : Nat} {s : World Unit} (calling : Calling n s) (few : n ≤ 254) : Admissible s := by
  obtain ⟨c, frames, held, rfl, length, member⟩ := calling
  simp only [List.mem_cons, List.not_mem_nil, or_false] at member
  have asked : ∀ f ∈ frames, f.asks = none ∨ f.asks = some (0x300, 5) := by
    rcases member with rfl | rfl | rfl | rfl | rfl <;> decide
  have one : (frames.flatMap Frame.keeps).length + (frames.flatMap Frame.awaits).length ≤ 1 := by
    rcases member with rfl | rfl | rfl | rfl | rfl <;> decide
  constructor
  · intro t f inside dev block asks
    rcases asked f inside with nothing | same
    · rw [nothing] at asks
      cases asks
    · rw [same] at asks
      cases asks
      decide
  · intro b _
    have references : (only c frames held).handOuts b + (only c frames held).waiters b =
        held.count b + (frames.flatMap Frame.keeps).count b + (frames.flatMap Frame.awaits).count b := by
      rw [handOuts, waiters, Finset.univ_unique, Finset.sum_singleton, Finset.sum_singleton]
      rfl
    have holding := List.count_le_length (a := b) (l := held)
    have keeping := List.count_le_length (a := b) (l := frames.flatMap Frame.keeps)
    have awaiting := List.count_le_length (a := b) (l := frames.flatMap Frame.awaits)
    omega

/-- A task has got the same buffer twice. -/
theorem cacheSound_shared : ∃ hist c, Transition.Run tasks hist (only c [] [headAddr 0, headAddr 0]) ∧
    (c.heads (headAddr 0)).count = 2 ∧ CacheSound (only c [] [headAddr 0, headAddr 0]) := by
  obtain ⟨hist, c, run, shared, before⟩ := exists_shared
  obtain ⟨hist', c', run', shared', before'⟩ := shared.again (n := 1) run (le_refl 1) fun x member => by
    obtain ⟨c, frames, held, same, few, frame⟩ := before x member
    exact ⟨c, frames, held, same, Nat.le_succ_of_le few, frame⟩
  have now : Calling 2 (only c' [] [headAddr 0, headAddr 0]) := ⟨_, _, _, rfl, le_refl 2, by simp⟩
  exact ⟨hist', c', run', shared'.count,
    cacheSound_of_run run' (fun x member => (before' x member).admissible (by decide)) (now.admissible (by decide))⟩

end World

end OperatorSystem.Fs
