/-
**Which waiters a broadcast still has to release.**

`notify_waiters` advances the generation in one step and pops the waiters of older generations
later, under the tag-lock. In between they are still linked. `Generations` is what holds then, as
long as the generation has not wrapped around:

* the linked nodes carry the generation their owner captured, in ascending order and never above the
  current one (`stamped`, `ordered`, `present`);
* for a linked node of an older generation some broadcast is still before its drain and is going to
  pop it (`covered`, `coversAt`).

A step outside of the tag-lock leaves the queue alone and moves the generation only together with a
new broadcast (`Aside`); a step under the lock leaves the generation (`Generations.held`).
-/

import Xutex.Notify.Frames

set_option linter.unusedSectionVars false

namespace Xutex.Notify

open Concurrency Discipline

variable {ι : Type} [DecidableEq ι]

/-! ### The invariant -/

/-- A broadcast at this point is going to pop the linked nodes of generation `gen`. -/
def coversAt (gen : ℕ) : Pc ι → Bool
  | .broadcastLock prev | .broadcastLoad prev => decide (gen ≤ generation prev)
  | .broadcastDrain liveGen => decide (gen < liveGen)
  | _ => false

/-- Some broadcast is going to. -/
def Covered (state : State ι) (gen : ℕ) : Prop := ∃ party, coversAt gen (state.pc party) = true

/-- A linked node of the generation, or a later one, is in place before a push. -/
def Below (state : State ι) (gen : ℕ) : Prop := ∀ node ∈ state.queue.entries,
    (state.signal node).aux ≤ gen

/-- What a party knows at its point. -/
def Point (state : State ι) (party : ι) : Pc ι → Prop
  | .enqueueCas _ _ | .enqueuePush _ =>
    hasQueue state.word = true ∧ Below state (state.captured party) ∧
      state.captured party ≤ generation state.word ∧
      (state.captured party < generation state.word → Covered state (state.captured party))
  | .broadcastLock prev | .broadcastLoad prev => generation prev < generation state.word
  | .broadcastDrain liveGen => liveGen ≤ generation state.word ∧ Below state liveGen
  | _ => True

/-- **The invariant of generations.** -/
structure Generations (width : PointerWidth) (state : State ι) : Prop where
  waiting : Waiting state
  live : generation state.word = state.broadcasts
  bound : state.broadcasts < generations width
  flagged : state.queue.entries ≠ [] → hasQueue state.word = true
  stamped : ∀ node ∈ state.queue.entries, (state.signal node).aux = state.captured node
  ordered : state.queue.entries.Pairwise fun first second =>
    (state.signal first).aux ≤ (state.signal second).aux
  present : Below state (generation state.word)
  covered : ∀ node ∈ state.queue.entries, (state.signal node).aux < generation state.word →
    Covered state (state.signal node).aux
  points : ∀ party, Point state party (state.pc party)

section Rules

variable {width : PointerWidth} {state next : State ι} {party : ι} {pc : Pc ι}

theorem Generations.in_range (generations' : Generations width state) :
    generation state.word < generations width := by
  rw [generations'.live]
  exact generations'.bound

/-- The linked nodes keep their stamps. -/
theorem linked_stamps (waiting : Waiting state) (frame : Frame state next party) {node : ι}
    (member : node ∈ state.queue.entries) :
    (next.signal node).aux = (state.signal node).aux ∧ next.captured node = state.captured node :=
  frame.given (waiting.queued member).1

/-- What is below a generation stays below it while nothing is pushed. -/
theorem Below.kept {gen : ℕ} (below : Below state gen) (waiting : Waiting state)
    (frame : Frame state next party)
    (entries : ∀ node ∈ next.queue.entries, node ∈ state.queue.entries) : Below next gen := by
  intro node member
  rw [(linked_stamps waiting frame (entries node member)).1]
  exact below node (entries node member)

/-- The linked nodes stay in order. -/
theorem Generations.ordered_kept (kept : Generations width state) (frame : Frame state next party)
    {left : List ι} (entries : left.Sublist state.queue.entries) :
    left.Pairwise fun first second => (next.signal first).aux ≤ (next.signal second).aux := by
  refine (kept.ordered.sublist entries).imp_of_mem fun first second sorted => ?_
  rw [(linked_stamps kept.waiting frame (entries.subset first)).1,
    (linked_stamps kept.waiting frame (entries.subset second)).1]
  exact sorted

theorem Generations.stamped_kept (kept : Generations width state) (frame : Frame state next party)
    (entries : ∀ node ∈ next.queue.entries, node ∈ state.queue.entries) :
    ∀ node ∈ next.queue.entries, (next.signal node).aux = next.captured node := by
  intro node member
  obtain ⟨aux, captured⟩ := linked_stamps kept.waiting frame (entries node member)
  rw [aux, captured]
  exact kept.stamped node (entries node member)

/-- The broadcasts of the others go on. -/
theorem covered_other (moves : MovesFrom state next party pc) {gen : ℕ} {other : ι}
    (different : other ≠ party) (covers : coversAt gen (state.pc other) = true) :
    Covered next gen := by
  obtain ⟨pc', moves⟩ := moves
  have rest : next.pc other = state.pc other := moves.rest different
  exact ⟨other, by rw [rest]; exact covers⟩

/-- **A step of a party that does not hold the tag-lock.** The step may acquire the lock, or start a
broadcast. -/
structure Aside (state next : State ι) (party : ι) : Prop where
  entries : next.queue.entries = state.queue.entries
  flag : hasQueue next.word = hasQueue state.word
  live : (generation next.word = generation state.word ∧ next.broadcasts = state.broadcasts) ∨
    (generation next.word = generation state.word + 1 ∧ next.broadcasts = state.broadcasts + 1 ∧
      (hasQueue state.word = true → ∀ gen ≤ generation state.word,
        coversAt gen (next.pc party) = true))
  covers : ∀ gen, coversAt gen (state.pc party) = true →
    state.queue.entries ≠ [] ∨ state.queue.holder ≠ none → coversAt gen (next.pc party) = true
  point : Point next party (next.pc party)

/-- Older generations stay covered. -/
theorem Aside.covered (aside : Aside state next party) (moves : MovesFrom state next party pc)
    {gen : ℕ} (flag : hasQueue state.word = true)
    (busy : state.queue.entries ≠ [] ∨ state.queue.holder ≠ none)
    (before : gen ≤ generation state.word)
    (covered : gen < generation state.word → Covered state gen)
    (older : gen < generation next.word) : Covered next gen := by
  by_cases already : gen < generation state.word
  · obtain ⟨other, covers⟩ := covered already
    by_cases self : other = party
    · subst self
      exact ⟨other, aside.covers gen covers busy⟩
    · exact covered_other moves self covers
  · rcases aside.live with ⟨same, -⟩ | ⟨-, -, broadcast⟩
    · omega
    · exact ⟨party, broadcast flag gen before⟩

section

variable (kept : Generations width state) (moves : MovesFrom state next party (state.pc party))
include kept moves

/-- **The rule for steps outside of the lock.** -/
theorem Generations.aside (frame : Frame state next party) (aside : Aside state next party)
    (bound : next.broadcasts < generations width) : Generations width next := by
  have later : generation state.word ≤ generation next.word := by
    rcases aside.live with ⟨same, -⟩ | ⟨more, -⟩ <;> omega
  have members : ∀ node ∈ next.queue.entries, node ∈ state.queue.entries := by
    rw [aside.entries]
    exact fun _ => id
  have waiting : Waiting next := by
    obtain ⟨pc', moves⟩ := moves
    exact kept.waiting.step moves
  refine ⟨waiting, ?_, bound, ?_, kept.stamped_kept frame members, ?_, ?_, ?_, fun other => ?_⟩
  · have live := kept.live
    rcases aside.live with ⟨same, count⟩ | ⟨more, count, -⟩ <;> omega
  · rw [aside.entries, aside.flag]
    exact kept.flagged
  · exact kept.ordered_kept frame (by rw [aside.entries])
  · exact fun node member => ((kept.present.kept kept.waiting frame members) node member).trans
      later
  · intro node member older
    have linked := members node member
    have occupied : state.queue.entries ≠ [] := List.ne_nil_of_mem linked
    rw [(linked_stamps kept.waiting frame linked).1] at older ⊢
    exact aside.covered moves (kept.flagged occupied) (.inl occupied) (kept.present node linked)
      (kept.covered node linked) older
  · by_cases self : other = party
    · subst self
      exact aside.point
    · have point := kept.points other
      have rest : next.pc other = state.pc other := by
        obtain ⟨pc', moves⟩ := moves
        exact moves.rest self
      have captured := frame.captured other self
      rw [rest]
      cases source : state.pc other
      case enqueueCas | enqueuePush =>
        rw [source] at point
        obtain ⟨flag, below, before, covered⟩ := point
        have busy : state.queue.holder ≠ none := by
          have locked : lockedAt (state.pc other) = true := by rw [source]; rfl
          rw [show state.queue.holder = some other from (kept.waiting.lock other).mp locked]
          rintro ⟨⟩
        rw [Point, aside.flag, captured]
        exact ⟨flag, below.kept kept.waiting frame members, before.trans later,
          aside.covered moves flag (.inr busy) before covered⟩
      case broadcastLock prev | broadcastLoad prev =>
        rw [source] at point
        exact Nat.lt_of_lt_of_le point later
      case broadcastDrain liveGen =>
        rw [source] at point
        exact ⟨point.1.trans later, point.2.kept kept.waiting frame members⟩
      all_goals trivial

/-- **The rule for steps under the lock**: they do not change the generation. -/
theorem Generations.held (locked : lockedAt (state.pc party) = true)
    (live : generation next.word = generation state.word)
    (count : next.broadcasts = state.broadcasts)
    (flagged : next.queue.entries ≠ [] → hasQueue next.word = true)
    (stamped : ∀ node ∈ next.queue.entries, (next.signal node).aux = next.captured node)
    (ordered : next.queue.entries.Pairwise fun first second => (next.signal first).aux ≤
      (next.signal second).aux)
    (present : Below next (generation state.word))
    (covered : ∀ node ∈ next.queue.entries, (next.signal node).aux < generation state.word →
      Covered next (next.signal node).aux)
    (point : Point next party (next.pc party)) : Generations width next := by
  have waiting : Waiting next := by
    obtain ⟨pc', moves⟩ := moves
    exact kept.waiting.step moves
  refine ⟨waiting,
    by rw [live, count, kept.live], by rw [count]; exact kept.bound, flagged, stamped,
    ordered, by rw [live]; exact present, by rw [live]; exact covered, fun other => ?_⟩
  by_cases self : other = party
  · subst self
    exact point
  · have known := kept.points other
    have rest : next.pc other = state.pc other := by
      obtain ⟨pc', moves⟩ := moves
      exact moves.rest self
    have free : lockedAt (state.pc other) = false := by
      cases taken : lockedAt (state.pc other) with
      | false => rfl
      | true => exact absurd (kept.waiting.lock_unique taken locked) self
    rw [rest]
    cases source : state.pc other
    case broadcastLock prev =>
      rw [source] at known
      rw [Point, live]
      exact known
    case enqueueCas | enqueuePush | broadcastLoad | broadcastDrain =>
      rw [source] at free
      cases free
    all_goals trivial

/-- A step under the lock that leaves the queue or takes nodes out of it. -/
theorem Generations.heldSublist (frame : Frame state next party)
    (locked : lockedAt (state.pc party) = true)
    (live : generation next.word = generation state.word)
    (count : next.broadcasts = state.broadcasts)
    (entries : next.queue.entries.Sublist state.queue.entries)
    (flag : next.queue.entries ≠ [] → hasQueue state.word = true → hasQueue next.word = true)
    (covers : ∀ node ∈ next.queue.entries, coversAt (state.signal node).aux
      (state.pc party) = true → coversAt (state.signal node).aux (next.pc party) = true)
    (point : Point next party (next.pc party)) : Generations width next := by
  refine kept.held moves locked live count (fun linked => ?_)
    (kept.stamped_kept frame fun _ member => entries.subset member)
    (kept.ordered_kept frame entries)
    (kept.present.kept kept.waiting frame fun _ member => entries.subset member)
    (fun node member older => ?_) point
  · refine flag linked (kept.flagged ?_)
    rintro empty
    rw [empty] at entries
    exact linked (List.sublist_nil.mp entries)
  · have linked := entries.subset member
    rw [(linked_stamps kept.waiting frame linked).1] at older ⊢
    obtain ⟨other, busy⟩ := kept.covered node linked older
    by_cases self : other = party
    · subst self
      exact ⟨other, covers node member busy⟩
    · exact covered_other moves self busy

end

end Rules

/-! ### Steps outside of the lock -/

section Outside

variable {width : PointerWidth} {state next : State ι} {party : ι} {pc pc' : Pc ι} {mode : Mode}

theorem point_free (free : lockedAt pc = false) (none : broadcastsAt pc = false) :
    Point state party pc := by
  cases pc <;> trivial

/-- A step that leaves the queue, the flag and the generation, by a party that broadcasts
nothing. -/
theorem Aside.same (waiting : Waiting state) (moves : MovesFrom state next party (state.pc party))
    (queue : next.queue = state.queue) (flag : hasQueue next.word = hasQueue state.word)
    (live : generation next.word = generation state.word)
    (count : next.broadcasts = state.broadcasts)
    (target : next.pc party = pc') (none : broadcastsAt pc' = false)
    (free : lockedAt (state.pc party) = false)
    (covers : ∀ gen, coversAt gen (state.pc party) = false) : Aside state next party where
  entries := by rw [queue]
  flag := flag
  live := .inl ⟨live, count⟩
  covers gen busy := by rw [covers] at busy; cases busy
  point := by
    refine point_free ?_ (by rw [target]; exact none)
    obtain ⟨pc', moves⟩ := moves
    cases taken : lockedAt (next.pc party) with
    | false => rfl
    | true =>
      have holder : next.queue.holder = some party := ((waiting.step moves).lock party).mp taken
      rw [queue] at holder
      have held : lockedAt (state.pc party) = true := (waiting.lock party).mpr holder
      rw [free] at held
      cases held

theorem Aside.untouched (waiting : Waiting state)
    (moves : MovesFrom state next party (state.pc party))
    (untouched : Untouched state next party) (free : lockedAt (state.pc party) = false)
    (covers : ∀ gen, coversAt gen (state.pc party) = false) : Aside state next party := by
  obtain ⟨pc', pcs, none⟩ := untouched.target
  exact .same waiting moves untouched.queue (by rw [untouched.word]) (by rw [untouched.word])
    untouched.broadcasts (by rw [pcs, Function.update_self]) none free covers

theorem tryCas_aside {attempt : Attempt} {cur : ℕ} (kept : Generations width state)
    (source : state.pc party = .tryCas attempt cur)
    (moves : MovesFrom state (tryCas width state party attempt cur) party (state.pc party)) :
    Aside state (tryCas width state party attempt cur) party := by
  have free : lockedAt (state.pc party) = false := by rw [source]; rfl
  have covers (gen : ℕ) : coversAt gen (state.pc party) = false := by rw [source]; rfl
  revert moves
  unfold tryCas
  split
  · rename_i same
    intro moves
    have ends : Untouched ({ state with word := clearPermit width cur }.consume true)
        (tryTrue ({ state with word := clearPermit width cur }.consume true) party attempt) party :=
      tryTrue_untouched
    obtain ⟨pc', pcs, none⟩ := ends.target
    refine .same kept.waiting moves ends.queue ?_ ?_ ends.broadcasts
      (by rw [pcs, Function.update_self]) none free covers
    · rw [ends.word, ← same]
      exact clearPermit_hasQueue
    · rw [ends.word, ← same]
      exact clearPermit_generation kept.in_range
  · intro moves
    exact .untouched kept.waiting moves tryNext_untouched free covers

theorem notifyCas_aside {passed : Bool} {cur : ℕ} (waiting : Waiting state)
    (source : state.pc party = .notifyCas passed cur)
    (moves : MovesFrom state (notifyCas state party passed cur) party (state.pc party)) :
    Aside state (notifyCas state party passed cur) party := by
  have free : lockedAt (state.pc party) = false := by rw [source]; rfl
  have covers (gen : ℕ) : coversAt gen (state.pc party) = false := by rw [source]; rfl
  revert moves
  unfold notifyCas
  split
  · rename_i same
    intro moves
    subst same
    exact .same waiting moves rfl setPermit_hasQueue setPermit_generation rfl
      (Function.update_self _ _ _) rfl free covers
  · intro moves
    exact .same waiting moves rfl rfl rfl rfl (Function.update_self _ _ _) rfl free covers

theorem notifySlowCas_aside {passed : Bool} {cur : ℕ} (waiting : Waiting state)
    (source : state.pc party = .notifySlowCas passed cur)
    (moves : MovesFrom state (notifySlowCas state party passed cur) party (state.pc party)) :
    Aside state (notifySlowCas state party passed cur) party := by
  have free : lockedAt (state.pc party) = false := by rw [source]; rfl
  have covers (gen : ℕ) : coversAt gen (state.pc party) = false := by rw [source]; rfl
  revert moves
  unfold notifySlowCas
  split
  · rename_i same
    intro moves
    subst same
    exact .same waiting moves rfl setPermit_hasQueue setPermit_generation rfl
      (Function.update_self _ _ _) rfl free covers
  · intro moves
    exact .untouched waiting moves notifyNext_untouched free covers

/-- **A broadcast that finds the flag is going to pop all that is linked.** -/
theorem broadcastAdd_aside (kept : Generations width state)
    (source : state.pc party = .broadcastAdd)
    (bound : (broadcastAdd width state party).broadcasts < generations width) :
    Aside state (broadcastAdd width state party) party := by
  have target : (broadcastAdd width state party).pc party =
      if hasQueue state.word then .broadcastLock state.word else .idle := Function.update_self _ _ _
  have more : generation (broadcastAdd width state party).word = generation state.word + 1 := by
    refine addGeneration_generation ?_
    rw [kept.live]
    exact bound
  refine ⟨rfl, addGeneration_hasQueue, .inr ⟨more, rfl, fun flag gen before => ?_⟩,
    fun gen busy => ?_, ?_⟩
  · rw [target, if_pos flag]
    exact decide_eq_true before
  · rw [source] at busy
    cases busy
  · rw [target]
    split
    · rw [Point, more]
      exact Nat.lt_succ_self _
    · trivial

/-- A step of `WaitQueue::lock`: the queue is absent and the party goes on elsewhere, or the nodes
are as they were. -/
theorem Aside.lock {alloc : Bool} {locked : WaitQueue ι}
    (acquired : state.queue.lock party alloc = .acquired locked)
    (covers : ∀ gen, coversAt gen (state.pc party) = true → coversAt gen pc' = true)
    (point : Point ({ state with queue := locked }.goto party pc') party pc') :
    Aside state ({ state with queue := locked }.goto party pc') party := by
  obtain ⟨-, rfl, -⟩ := WaitQueue.lock_acquired acquired
  have target :
      ({ state with queue := ⟨some party, state.queue.entries⟩ }.goto party pc').pc party = pc' :=
    Function.update_self _ _ _
  refine ⟨rfl, rfl, .inl ⟨rfl, rfl⟩, fun gen busy _ => ?_, ?_⟩
  · rw [target]
    exact covers gen busy
  · rw [target]
    exact point

/-- `lock(false)` of a call that broadcasts nothing. -/
theorem lock_aside {result : Option (State ι)} (stepped : result = some next)
    (found : result = match state.queue.lock party false with
      | .spin => none
      | .absent => some (state.goto party pc)
      | .acquired locked => some ({ state with queue := locked }.goto party pc'))
    (covers : ∀ gen, coversAt gen (state.pc party) = false)
    (absent : Point (state.goto party pc) party pc) (point : ∀ after, Point after party pc') :
    Aside state next party := by
  subst found
  split at stepped <;> cases stepped
  · have target : (state.goto party pc).pc party = pc := Function.update_self _ _ _
    refine ⟨rfl, rfl, .inl ⟨rfl, rfl⟩, fun gen busy => ?_, by rw [target]; exact absent⟩
    rw [covers] at busy
    cases busy
  · rename_i acquired
    refine .lock acquired (fun gen busy => ?_) (point _)
    rw [covers] at busy
    cases busy

theorem enqueueLock_aside (source : state.pc party = .enqueueLock mode)
    (stepped : enqueueLock state party mode = some next) : Aside state next party := by
  unfold enqueueLock at stepped
  split at stepped <;> cases stepped
  rename_i acquired
  refine .lock acquired (fun gen busy => ?_) trivial
  rw [source] at busy
  cases busy

/-- A broadcast gives up only when nothing is linked and nobody is about to link. -/
theorem broadcastLock_aside {prev : ℕ} (kept : Generations width state)
    (source : state.pc party = .broadcastLock prev)
    (stepped : broadcastLock state party prev = some next) : Aside state next party := by
  have point := kept.points party
  rw [source] at point
  unfold broadcastLock at stepped
  split at stepped <;> cases stepped
  · rename_i absent
    obtain ⟨free, empty, -⟩ := WaitQueue.lock_absent absent
    have target : (state.goto party .idle).pc party = .idle := Function.update_self _ _ _
    refine ⟨rfl, rfl, .inl ⟨rfl, rfl⟩, fun gen _ busy => ?_, by rw [target]; trivial⟩
    rcases busy with linked | held
    · exact absurd empty linked
    · exact absurd free held
  · rename_i acquired
    refine .lock acquired (fun gen busy => ?_) point
    rw [source] at busy
    exact busy

end Outside

/-! ### Steps under the lock -/

section Locked

variable {width : PointerWidth} {state next : State ι} {party : ι} {pc' : Pc ι} {mode : Mode}

section

variable (kept : Generations width state)
include kept

/-- A step under the lock that leaves the queue and the generation, by a party that broadcasts
nothing. -/
theorem Generations.heldSame (moves : MovesFrom state next party (state.pc party))
    (frame : Frame state next party) (locked : lockedAt (state.pc party) = true)
    (covers : ∀ gen, coversAt gen (state.pc party) = false)
    (live : generation next.word = generation state.word)
    (count : next.broadcasts = state.broadcasts)
    (entries : next.queue.entries = state.queue.entries)
    (flag : next.queue.entries ≠ [] → hasQueue state.word = true → hasQueue next.word = true)
    (target : next.pc party = pc') (point : Point next party pc') : Generations width next := by
  refine kept.heldSublist moves frame locked live count (by rw [entries]) flag
    (fun node _ busy => ?_) (by rw [target]; exact point)
  rw [covers] at busy
  cases busy

/-- The three ways on from a read of `enqueue_or_complete`, with the flag set. -/
theorem enqueueNext_generations {word : ℕ} (flag : hasQueue word = true)
    (live : generation word = generation state.word)
    (moves : MovesFrom state ({ state with word := word }.goto party
      (enqueueNext state party mode word)) party (state.pc party))
    (locked : lockedAt (state.pc party) = true)
    (covers : ∀ gen, coversAt gen (state.pc party) = false) :
    Generations width
      ({ state with word := word }.goto party (enqueueNext state party mode word)) := by
  refine kept.heldSame moves (.same rfl rfl) locked covers live rfl rfl (fun _ _ => flag)
    (Function.update_self _ _ _) ?_
  unfold enqueueNext
  split
  · trivial
  · rename_i current
    have captured : generation word = state.captured party := not_not.mp current
    have below : Below state (state.captured party) := by
      rw [← captured, live]
      exact kept.present
    split
    · exact ⟨flag, below, captured.ge, fun older => absurd captured older.ne'⟩
    · exact ⟨flag, below, captured.ge, fun older => absurd captured older.ne'⟩

theorem enqueueCas_generations {cur : ℕ} (source : state.pc party = .enqueueCas mode cur)
    (moves : MovesFrom state (enqueueCas width state party mode cur) party (state.pc party)) :
    Generations width (enqueueCas width state party mode cur) := by
  have locked : lockedAt (state.pc party) = true := by rw [source]; rfl
  have covers (gen : ℕ) : coversAt gen (state.pc party) = false := by rw [source]; rfl
  have flag : hasQueue state.word = true := by
    have point := kept.points party
    rw [source] at point
    exact point.1
  revert moves
  unfold enqueueCas
  split
  · rename_i same
    intro moves
    subst same
    exact kept.heldSame moves (.same rfl rfl) locked covers (clearPermit_generation kept.in_range)
      rfl rfl (fun _ _ => clearPermit_hasQueue.trans flag) (Function.update_self _ _ _) trivial
  · intro moves
    exact enqueueNext_generations kept flag rfl moves locked covers

/-- **The push**: the new node is the youngest, and if a broadcast has come since its flag was set,
that broadcast is going to pop it. -/
theorem enqueuePush_generations (source : state.pc party = .enqueuePush mode)
    (moves : MovesFrom state (enqueuePush state party mode) party (state.pc party)) :
    Generations width (enqueuePush state party mode) := by
  have locked : lockedAt (state.pc party) = true := by rw [source]; rfl
  have point := kept.points party
  rw [source] at point
  obtain ⟨flag, below, before, covered⟩ := point
  have frame : Frame state (enqueuePush state party mode) party :=
    .free rfl (fun _ _ => rfl) (by rw [source]; rfl)
  have mine : ((enqueuePush state party mode).signal party).aux = state.captured party := by
    simp [enqueuePush]
  have still {gen : ℕ} (covers : Covered state gen) :
      Covered (enqueuePush state party mode) gen := by
    obtain ⟨other, busy⟩ := covers
    refine covered_other moves ?_ busy
    rintro rfl
    rw [source] at busy
    cases busy
  have split {node : ι} (member : node ∈ (enqueuePush state party mode).queue.entries) :
      node ∈ state.queue.entries ∨ node = party := by
    have member : node ∈ state.queue.entries ++ [party] := member
    simpa using member
  refine kept.held moves locked rfl rfl (fun _ => flag) (fun node member => ?_) ?_
    (fun node member => ?_) (fun node member older => ?_) ?_
  · rcases split member with linked | rfl
    · obtain ⟨aux, captured⟩ := linked_stamps kept.waiting frame linked
      rw [aux, captured]
      exact kept.stamped node linked
    · exact mine
  · show (state.queue.entries ++ [party]).Pairwise _
    refine List.pairwise_append.mpr ⟨kept.ordered_kept frame (List.Sublist.refl _),
      List.pairwise_singleton _ _, ?_⟩
    intro node linked other isParty
    obtain rfl := List.mem_singleton.mp isParty
    rw [(linked_stamps kept.waiting frame linked).1, mine]
    exact below node linked
  · rcases split member with linked | rfl
    · rw [(linked_stamps kept.waiting frame linked).1]
      exact kept.present node linked
    · rw [mine]
      exact before
  · rcases split member with linked | rfl
    · rw [(linked_stamps kept.waiting frame linked).1] at older ⊢
      exact still (kept.covered node linked older)
    · rw [mine] at older ⊢
      exact still (covered older)
  · rw [show (enqueuePush state party mode).pc party = .unlock (.enqueued mode) from
      Function.update_self _ _ _]
    trivial

theorem notifyPop_generations {passed : Bool} (source : state.pc party = .notifyPop passed)
    (moves : MovesFrom state (notifyPop state party passed) party (state.pc party)) :
    Generations width (notifyPop state party passed) := by
  have locked : lockedAt (state.pc party) = true := by rw [source]; rfl
  have covers (gen : ℕ) : coversAt gen (state.pc party) = false := by rw [source]; rfl
  revert moves
  unfold notifyPop
  split
  · intro moves
    exact kept.heldSame moves (.same rfl rfl) locked covers rfl rfl rfl (fun _ => id)
      (Function.update_self _ _ _) trivial
  · rename_i front rest linked
    intro moves
    have target : (({ state with queue := state.queue.leave rest }.issue passed).goto party
        (.unlock (.popped passed (some front)))).pc party = .unlock (.popped passed (some front)) :=
      Function.update_self _ _ _
    refine kept.heldSublist moves (.same rfl rfl) locked rfl rfl ?_ (fun _ => id)
      (fun node _ busy => ?_) (by rw [target]; trivial)
    · rw [linked]
      exact List.sublist_cons_self front rest
    · rw [covers] at busy
      cases busy

theorem broadcastLoad_generations {prev : ℕ} (source : state.pc party = .broadcastLoad prev)
    (moves : MovesFrom state (state.goto party (.broadcastDrain (generation state.word))) party
      (state.pc party)) :
    Generations width (state.goto party (.broadcastDrain (generation state.word))) := by
  have point := kept.points party
  rw [source] at point
  have target : (state.goto party (.broadcastDrain (generation state.word))).pc party =
      .broadcastDrain (generation state.word) := Function.update_self _ _ _
  refine kept.heldSublist moves (.same rfl rfl) (by rw [source]; rfl) rfl rfl (List.Sublist.refl _)
    (fun _ => id) (fun node _ busy => ?_) ?_
  · rw [source] at busy
    rw [target]
    exact decide_eq_true ((of_decide_eq_true busy).trans_lt point)
  · rw [target]
    exact ⟨le_rfl, kept.present⟩

/-- **The drain** leaves no node that it was to pop. -/
theorem broadcastDrain_generations {liveGen : ℕ} (source : state.pc party = .broadcastDrain liveGen)
    (moves : MovesFrom state (broadcastDrain state party liveGen) party (state.pc party)) :
    Generations width (broadcastDrain state party liveGen) := by
  have target : (broadcastDrain state party liveGen).pc party = .unlock (.drained _) :=
    Function.update_self _ _ _
  refine kept.heldSublist moves (.same rfl rfl) (by rw [source]; rfl) rfl rfl
    (List.dropWhile_sublist _) (fun _ => id) (fun node member busy => ?_) (by rw [target]; trivial)
  rw [source] at busy
  have older := of_decide_eq_true busy
  have reached := ordered_dropWhile_ne state.queue.entries kept.ordered node member
  omega

theorem unlocked_generations {back : Unlock ι} (locked : lockedAt (state.pc party) = true)
    (covers : ∀ gen, coversAt gen (state.pc party) = false)
    (moves : MovesFrom state (unlocked { state with queue := state.queue.unlock } party back) party
      (state.pc party)) :
    Generations width (unlocked { state with queue := state.queue.unlock } party back) := by
  have ends : Untouched { state with queue := state.queue.unlock }
      (unlocked { state with queue := state.queue.unlock } party back) party := unlocked_untouched
  obtain ⟨pc', pcs, none⟩ := ends.target
  have target : (unlocked { state with queue := state.queue.unlock } party back).pc party =
    pc' := by
    rw [pcs, Function.update_self]
  have free : lockedAt pc' = false := by
    obtain ⟨_, moves⟩ := moves
    cases taken : lockedAt pc' with
    | false => rfl
    | true =>
      have holder : (unlocked { state with queue := state.queue.unlock } party back).queue.holder =
          some party := ((kept.waiting.step moves).lock party).mp (by
            show lockedAt
              ((unlocked { state with queue := state.queue.unlock } party back).pc party) = true
            rw [target, taken])
      rw [ends.queue] at holder
      cases holder
  exact kept.heldSame moves (unlocked_frame rfl rfl) locked covers (by rw [ends.word])
    ends.broadcasts
    (by rw [ends.queue]; rfl) (fun _ flag => by rw [ends.word]; exact flag) target
      (point_free free none)

theorem unlock_generations {back : Unlock ι} (source : state.pc party = .unlock back)
    (moves : MovesFrom state (unlock width state party back) party (state.pc party)) :
    Generations width (unlock width state party back) := by
  have locked : lockedAt (state.pc party) = true := by rw [source]; rfl
  have covers (gen : ℕ) : coversAt gen (state.pc party) = false := by rw [source]; rfl
  revert moves
  unfold unlock
  split
  · rename_i none
    intro moves
    have empty : state.queue.entries = [] := List.isEmpty_iff.mp none
    exact kept.heldSame moves (.same rfl rfl) locked covers (clearQueue_generation kept.in_range)
      rfl rfl (fun linked => absurd empty linked) (Function.update_self _ _ _) trivial
  · intro moves
    exact unlocked_generations kept locked covers moves

theorem cancelRemove_generations (source : state.pc party = .cancelRemove)
    (moves : MovesFrom state (cancelRemove state party) party (state.pc party)) :
    Generations width (cancelRemove state party) := by
  have locked : lockedAt (state.pc party) = true := by rw [source]; rfl
  have covers (gen : ℕ) : coversAt gen (state.pc party) = false := by rw [source]; rfl
  revert moves
  unfold cancelRemove
  split
  · intro moves
    have target : ({ state with queue := state.queue.remove party }.goto party
        (.unlock (.removed true))).pc party = .unlock (.removed true) := Function.update_self _ _ _
    refine kept.heldSublist moves (.same rfl rfl) locked rfl rfl (List.erase_sublist) (fun _ => id)
      (fun node _ busy => ?_) (by rw [target]; trivial)
    rw [covers] at busy
    cases busy
  · intro moves
    exact kept.heldSame moves (.same rfl rfl) locked covers rfl rfl rfl (fun _ => id)
      (Function.update_self _ _ _) trivial

end

end Locked

end Xutex.Notify
