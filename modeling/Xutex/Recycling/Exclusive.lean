/-
**Recycling never shares a queue.**

The same address leaves and enters primitives through the pool, while threads still hold copies of
it from earlier. Here the places of `Places` are read off the program: the pool, the words, the
program points and the hands.

* `Occupies` — what it is for a queue to be in a place; `occupies_iff` — it is the place of
  `Settled`.
* `Exclusive` — **every queue is in exactly one place, what the pool holds is empty down to its two
  pointers, and a CAS that tags a queue tags the one its primitive has now**, however old the
  pointer is.
* `recycling_exclusive` — in every state of every run.
-/

import Xutex.Recycling.Links
import Xutex.Recycling.Loom

set_option linter.unusedSectionVars false

namespace Xutex.Recycling

open Concurrency Mutex PointerWidth

section Occupies

variable {κ ω ι : Type} [DecidableEq κ] [DecidableEq ω] [DecidableEq ι]

/-- The queue a party of a mutex works on. -/
def mutexQueue : Mutex.Pc ι → Option ℕ
  | .push _ ptr | .publish _ ptr _ | .cancelRemove ptr | .cancelUntag ptr _ | .unlockPop
    ptr | .unlockUntag ptr _
  | .unlockFree ptr => some ptr
  | _ => none

variable (state : State κ ω ι)

/-- The queue a party works on in a primitive. -/
def worksOn (party : ι) : κ ⊕ ω → Option ℕ
  | .inl index => mutexQueue ((state.mutex index).pc party)
  | .inr index => lockedQueue ((state.queue index).pc party)

/-- The word of a primitive. -/
def wordOf : κ ⊕ ω → ℕ
  | .inl index => (state.mutex index).word
  | .inr index => (state.queue index).word

/-- The queue that the next CAS of a party tags. -/
def tagging (party : ι) : κ ⊕ ω → Option ℕ
  | .inl index => tagsAt ((state.mutex index).pc party)
  | .inr index =>
    match (state.queue index).pc party with
    | .tag _ ptr => some ptr
    | _ => none

/-- **A queue is in a place.** A queue that is filled for the first time is hidden behind
`UPDATING`, and is in the hands of the party that fills it. -/
def Occupies (ptr : ℕ) : Place κ ω ι → Prop
  | .pool => ptr ∈ state.pool.getD []
  | .primitive owner =>
    wordOf state owner = ptr ∨ wordOf state owner = tagPointer ptr ∨
      ∃ party, worksOn state party owner = some ptr
  | .hand party => state.hand party = some ptr

/-- The label of a party's next step in its primitive. -/
def advances (home : ι → κ ⊕ ω) (party : ι) : Label ι :=
  match home party with
  | .inl _ => .mutex party .advance
  | .inr _ => .queue party .advance

end Occupies

section Places

variable {κ ω ι : Type} [DecidableEq κ] [DecidableEq ω] [DecidableEq ι] [Fintype ι]
  {width : PointerWidth}
  {parallelism : ℕ} {home : ι → κ ⊕ ω} {state next : State κ ω ι} {status : κ ⊕ ω → Status ι}
  {place : ℕ → Option (Place κ ω ι)} {party : ι} {ptr : ℕ} {primitive : κ ⊕ ω}

theorem mutexQueue_iff {pc : Mutex.Pc ι} :
    mutexQueue pc = some ptr ↔ statusAt party pc = some (.held party ptr) := by
  cases pc <;> simp [mutexQueue, statusAt]

/-- The party that works on a queue has it. -/
theorem Settled.works_iff (settled : Settled width home state status place) :
    worksOn state party primitive = some ptr ↔ status primitive = .held party ptr := by
  cases primitive with
  | inl index =>
    have described : Mutex.Described width (state.mutexAt index) (status (.inl index)) :=
      Owned.toDescribed (settled.fits (.inl index))
    show mutexQueue ((state.mutexAt index).pc party) = some ptr ↔ _
    rw [mutexQueue_iff]
    constructor
    · exact described.eq_of_statusAt
    · intro held
      rw [← held]
      exact described.statusAt_holder (by rw [held]; rfl)
  | inr index =>
    have described : Queue.Described width (state.queueAt index) (status (.inr index)) :=
      settled.fits (.inr index)
    show lockedQueue ((state.queueAt index).pc party) = some ptr ↔ _
    exact lockedQueue_iff described

theorem Settled.encodes (settled : Settled width home state status place) (primitive : κ ⊕ ω) :
    Encodes width (wordOf state primitive) (status primitive) := by
  cases primitive with
  | inl index => exact (Owned.toDescribed (settled.fits (.inl index))).encodes
  | inr index =>
    have described : Queue.Described width (state.queueAt index) (status (.inr index)) :=
      settled.fits (.inr index)
    exact described.encodes

/-- **The places are those of the program.** -/
theorem Settled.occupies_iff (settled : Settled width home state status place)
    (queue : width.IsQueue ptr)
    (spot : Place κ ω ι) : Occupies state ptr spot ↔ place ptr = some spot := by
  cases spot with
  | pool => exact settled.pooled ptr
  | hand party => exact settled.handed party ptr
  | primitive owner =>
    have encodes := settled.encodes owner
    rw [← settled.installed owner ptr]
    constructor
    · rintro (rests | tagged | ⟨party, works⟩)
      · rw [encodes.eq_queue queue rests]
        rfl
      · obtain ⟨party, held⟩ := encodes.eq_held queue tagged
        rw [held]
        rfl
      · rw [settled.works_iff.mp works]
        rfl
    · intro mine
      cases known : status owner <;>
        simp only [known, Status.ptr, Option.some.injEq, reduceCtorEq] at mine <;>
        subst mine
      case held party ptr => exact .inr (.inr ⟨party, settled.works_iff.mpr known⟩)
      case queue ptr =>
        rw [known] at encodes
        exact .inl encodes.2

/-- **What a CAS that tags a queue finds and leaves.** -/
structure Tags (home : ι → κ ⊕ ω) (state next : State κ ω ι) (party : ι) (ptr : ℕ) : Prop where
  /-- The queue belongs to the primitive of the party, and nobody works on it. -/
  mine : ∀ spot, Occupies state ptr spot ↔ spot = .primitive (home party)
  unworked : ∀ other owner, worksOn state other owner ≠ some ptr
  /-- It holds nodes of this primitive only. -/
  nodes : ∀ node ∈ state.memory ptr, home node = home party
  /-- Afterwards the party has it, as it was, and is the only one to work on it. -/
  locked : wordOf next (home party) = tagPointer ptr ∧ worksOn next party (home party) = some ptr
  contents : next.memory ptr = state.memory ptr
  still : ∀ spot, Occupies next ptr spot ↔ spot = .primitive (home party)
  alone : ∀ other owner, worksOn next other owner = some ptr → other = party ∧ owner = home party

/-- A mutex tags the queue it has. -/
theorem mutex_tags {before after : Mutex.State ι} (tags : tagsAt (before.pc party) = some ptr)
    (found : before.word = ptr) (moved : Mutex.step width before (party, .advance) = some after) :
    after.word = tagPointer ptr ∧ mutexQueue (after.pc party) = some ptr ∧
      after.queues = before.queues := by
  cases step_access moved with
  | quiet word queues unlocked locked chain untagged =>
    exact absurd (by rw [tags, found]) (untagged rfl)
  | tags here source found' word queues target =>
    obtain rfl : ptr = here := Option.some.inj (tags.symm.trans source)
    refine ⟨word, ?_, queues⟩
    revert target
    cases after.pc party <;> simp [accessesAt, mutexQueue]
  | acquires source =>
    revert source tags
    cases before.pc party <;> simp [acquiresAt, tagsAt]
  | stores here source =>
    revert source tags
    cases before.pc party <;> simp [storesAt, tagsAt]
  | claims mode source => simp [source, tagsAt] at tags
  | pushes mode here source => simp [source, tagsAt] at tags
  | removes here source => simp [source, tagsAt] at tags
  | pops here node rest source => simp [source, tagsAt] at tags
  | empties here source => simp [source, tagsAt] at tags
  | frees here source => simp [source, tagsAt] at tags
  | unlocks source => simp [source, tagsAt] at tags
  | signals node source => simp [source, tagsAt] at tags

/-- A pointer about to be tagged is a queue's, and the CAS that succeeds gives the queue to the
party. -/
theorem Settled.tagged (settled : Settled width home state status place)
    (tags : tagging state party (home party) = some ptr) (found : wordOf state (home party) = ptr)
    (stepped : step width parallelism home state (advances home party) = some next) :
    width.IsQueue ptr ∧ wordOf next (home party) = tagPointer ptr ∧
      worksOn next party (home party) = some ptr ∧ next.memory = state.memory := by
  unfold advances at stepped
  cases owner : home party with
  | inl index =>
    rw [owner] at tags found stepped
    change mutexStep width home state party .advance = some next at stepped
    simp only [mutexStep, owner] at stepped
    split at stepped
    · obtain ⟨after, moved, rfl⟩ := Option.map_eq_some_iff.mp stepped
      have described := Owned.toDescribed (settled.fits (.inl index))
      have tags : tagsAt ((state.mutexAt index).pc party) = some ptr := tags
      have found : (state.mutexAt index).word = ptr := found
      obtain ⟨word, works, queues⟩ := mutex_tags tags found moved
      refine ⟨described.tags_queue tags, ?_, ?_, queues⟩
      · show (Function.update state.mutex index after index).word = _
        rw [Function.update_self, word]
      · show mutexQueue ((Function.update state.mutex index after index).pc party) = _
        rw [Function.update_self, works]
    · cases stepped
  | inr index =>
    rw [owner] at tags found stepped
    change queueStep width home state party .advance = some next at stepped
    simp only [queueStep, owner] at stepped
    split at stepped
    · obtain ⟨after, moved, rfl⟩ := Option.map_eq_some_iff.mp stepped
      have described : Queue.Described width (state.queueAt index) (status (.inr index)) :=
        settled.fits (.inr index)
      have source : ∃ alloc, (state.queueAt index).pc party = .tag alloc ptr := by
        unfold tagging at tags
        dsimp only at tags
        split at tags
        · rename_i alloc here source
          cases tags
          exact ⟨alloc, source⟩
        · cases tags
      obtain ⟨alloc, source⟩ := source
      have word : (state.queueAt index).word = ptr := found
      have result : after = Queue.tag width (state.queueAt index) party alloc ptr := by
        simpa [Queue.step, Queue.advance, source] using moved.symm
      rw [Queue.tag, if_pos word] at result
      refine ⟨described.here source, ?_, ?_, by rw [result]; rfl⟩
      · show (Function.update state.queue index after index).word = _
        rw [Function.update_self, result]
        rfl
      · show lockedQueue ((Function.update state.queue index after index).pc party) = _
        rw [Function.update_self, result]
        simp [lockedQueue]
    · cases stepped

/-- **A CAS that succeeds tags the queue of its primitive**, whenever its pointer was loaded. -/
theorem Settled.tags {status' : κ ⊕ ω → Status ι} {place' : ℕ → Option (Place κ ω ι)}
    (settled : Settled width home state status place)
    (settled' : Settled width home next status' place')
    (tags : tagging state party (home party) = some ptr) (found : wordOf state (home party) = ptr)
    (stepped : step width parallelism home state (advances home party) = some next) :
    Tags home state next party ptr := by
  obtain ⟨queue, word, works, memory⟩ := settled.tagged tags found stepped
  have rests : status (home party) = .queue ptr :=
    (settled.encodes (home party)).eq_queue queue found
  have held : status' (home party) = .held party ptr := settled'.works_iff.mp works
  have placed : place ptr = some (.primitive (home party)) :=
    (settled.installed (home party) ptr).mp (by rw [rests]; rfl)
  have placed' : place' ptr = some (.primitive (home party)) :=
    (settled'.installed (home party) ptr).mp (by rw [held]; rfl)
  have owner_eq {status : κ ⊕ ω → Status ι} {place : ℕ → Option (Place κ ω ι)} {state : State κ ω ι}
      {other : ι} {owner : κ ⊕ ω} (settled : Settled width home state status place)
      (placed : place ptr = some (.primitive (home party)))
        (works : worksOn state other owner = some ptr) :
      owner = home party ∧ status owner = .held other ptr := by
    have held := settled.works_iff.mp works
    have theirs := (settled.installed owner ptr).mp (by rw [held]; rfl)
    rw [placed] at theirs
    cases theirs
    exact ⟨rfl, held⟩
  refine ⟨fun spot => ?_, fun other owner works => ?_, fun node linked => ?_, ⟨word, works⟩,
    by rw [memory], fun spot => ?_, fun other owner works => ?_⟩
  · rw [settled.occupies_iff queue, placed, Option.some.injEq, eq_comm]
  · obtain ⟨rfl, held⟩ := owner_eq settled placed works
    rw [rests] at held
    cases held
  · have homed := settled.homed ptr node linked
    rw [placed] at homed
    simpa using homed.symm
  · rw [settled'.occupies_iff queue, placed', Option.some.injEq, eq_comm]
  · obtain ⟨rfl, theirs⟩ := owner_eq settled' placed' works
    rw [held] at theirs
    cases theirs
    exact ⟨rfl, rfl⟩

/-- **What holds of the queues of a program.** -/
structure Exclusive (width : PointerWidth) (parallelism : ℕ) (home : ι → κ ⊕ ω)
    (state : State κ ω ι) (heaps : Heaps ι) : Prop where
  /-- Every queue is in exactly one place, and once in the pool. -/
  places : ∀ ptr ∈ state.boxes, ∃! spot, Occupies state ptr spot
  once : (state.pool.getD []).Nodup
  /-- Nothing else is in any of these places. -/
  made : ∀ ptr spot, width.IsQueue ptr → Occupies state ptr spot → ptr ∈ state.boxes
  /-- One party at most works on a queue. -/
  alone : ∀ party owner other owner' ptr, worksOn state party owner = some ptr →
    worksOn state other owner' = some ptr → other = party ∧ owner' = owner
  /-- A pooled queue is empty, with both pointers null. -/
  pooled : ∀ ptr ∈ state.pool.getD [], state.memory ptr = [] ∧ heaps.queues ptr = ⟨none, none⟩
  /-- A CAS that tags a queue tags the one its primitive has now. -/
  tags : ∀ party ptr next, tagging state party (home party) = some ptr →
    wordOf state (home party) = ptr →
    step width parallelism home state (advances home party) = some next →
      Tags home state next party ptr

/-- The states of every run, with the memory of the queues; the links that nodes start with are
arbitrary. -/
abbrev Remembered (width : PointerWidth) (parallelism : ℕ) (home : ι → κ ⊕ ω) (links : ι → Option ι)
    (state : State κ ω ι) (heaps : Heaps ι) : Prop :=
  (machine width parallelism home).ObservedBy ⟨fun _ => .new, links⟩ (redraw home)
    (fun _ _ _ => True) state heaps

theorem drawn_of_reachable {links : ι → Option ι} {heaps : Heaps ι}
    (reach : Remembered width parallelism home links state heaps) : Drawn heaps state := by
  refine System.ReachableBy.observed (fun state heaps => Drawn heaps state) ?_ ?_ reach
  · rintro _ rfl ptr box
    cases box
  · intro state heaps label next before drawn stepped _
    obtain ⟨status, place, settled⟩ := settles_of_reachable before
    exact step_drawn drawn settled stepped

/-- **Recycling never shares a queue**, for any number of mutexes and wait queues around one pool
and any interleaving of their steps. -/
theorem recycling_exclusive {links : ι → Option ι} {heaps : Heaps ι}
    (reach : Remembered width parallelism home links state heaps) :
    Exclusive width parallelism home state heaps := by
  obtain ⟨status, place, settled⟩ := settles_of_reachable reach.unobserved
  have drawn := drawn_of_reachable reach
  have placed (ptr : ℕ) (made : ptr ∈ state.boxes) : ∃ spot, place ptr = some spot :=
    Option.ne_none_iff_exists'.mp ((settled.boxed ptr).mp made)
  refine ⟨fun ptr made => ?_, settled.nodup, fun ptr spot queue occupied => ?_,
    fun party owner other owner' ptr works works' => ?_, fun ptr inside => ?_,
    fun party ptr next tags found stepped => ?_⟩
  · obtain ⟨spot, there⟩ := placed ptr made
    have queue := settled.aligned ptr made
    refine ⟨spot, (settled.occupies_iff queue spot).mpr there, fun other occupied => ?_⟩
    have same := (settled.occupies_iff queue other).mp occupied
    rw [there] at same
    exact (Option.some.inj same).symm
  · rw [settled.boxed, (settled.occupies_iff queue spot).mp occupied]
    rintro ⟨⟩
  · have held := settled.works_iff.mp works
    have held' := settled.works_iff.mp works'
    obtain rfl : owner' = owner := settled.apart (by rw [held]; rfl) (by rw [held']; rfl)
    rw [held] at held'
    cases held'
    exact ⟨rfl, rfl⟩
  · have there := (settled.pooled ptr).mp inside
    have made : ptr ∈ state.boxes := (settled.boxed ptr).mpr (by rw [there]; rintro ⟨⟩)
    have empty : state.memory ptr = [] := settled.empty (by simp [there])
    have queue := drawn ptr made
    rw [empty] at queue
    refine ⟨empty, ?_⟩
    have first : (heaps.queues ptr).first = none := queue.first
    have last : (heaps.queues ptr).last = none := queue.last
    show (⟨(heaps.queues ptr).first, (heaps.queues ptr).last⟩ : SignalQueue ι) = _
    rw [first, last]
  · obtain ⟨status', place', settled'⟩ := step_settles settled stepped
    exact settled.tags settled' tags found stepped

end Places

/-- `party` takes a queue from the pool and gives it back unused. -/
def borrows {ι : Type} (party : ι) : List (Label ι) :=
  [.queue party (.lock true), .queue party .advance, .queue party .advance, .allocate party 0,
    .queue party .unlock, .queue party .advance, .queue party .advance, .deallocate party]

/-- `party` links its node into a new queue. -/
def enters {ι : Type} (party : ι) : List (Label ι) :=
  [.queue party (.lock true), .queue party .advance, .queue party .advance, .allocate party 0,
    .queue party (.withQueue (.push party)), .queue party .unlock, .queue party .advance]

/-- `c` has loaded the first queue of the wait queue. Then `b` empties it and gives it back, all the
other queues of the pool come and go, and `a` gets the first one again. -/
def comesBack {ι : Type} (a b c : ι) : List (Label ι) := List.flatten
  [[.initPool firstPool], enters a, [.queue c (.lock false), .queue c .advance],
    [.queue b (.lock false), .queue b .advance, .queue b .advance, .queue b (.withQueue .pop),
    .queue b .unlock, .queue b .advance, .queue b .advance, .deallocate b],
    (List.replicate 15 (borrows b)).flatten, enters a]

/-- The old pointer of `2` is the queue the wait queue has now, and its CAS gives `2` that queue. -/
theorem recycling_exclusive_comesBack :
    ∃ (state next : State Empty Unit (Fin 3)) (heaps : Heaps (Fin 3)),
    Remembered .bits64 1 (fun _ => .inr ()) (fun _ => none) state heaps ∧
    tagging state 2 (.inr ()) = some 8 ∧ state.pool = some (firstPool.tail) ∧
      heaps.queues 8 = ⟨some 0, some 0⟩ ∧
    step .bits64 1 (fun _ => .inr ()) state (.queue 2 .advance) = some next ∧
      Tags (fun _ => .inr ()) state next 2 8 := by
  obtain ⟨state, heaps, reach, ended⟩ := System.exists_observed_of_run
    (machine (κ := Empty) (ω := Unit) .bits64 1 fun _ : Fin 3 => .inr ())
    ⟨fun _ => .new, fun _ => none⟩ (redraw fun _ => .inr ())
    (fun state heaps => decide (tagging state 2 (.inr ()) = some 8 ∧ wordOf state (.inr ()) = 8 ∧
      state.pool = some firstPool.tail ∧ heaps.queues 8 = ⟨some 0, some 0⟩ ∧
      (step .bits64 1 (fun _ => .inr ()) state (.queue 2 .advance)).isSome)) rfl (comesBack 0 1 2)
      (by decide +kernel)
  obtain ⟨tags, found, pool, pointers, enabled⟩ := of_decide_eq_true ended
  obtain ⟨next, stepped⟩ := Option.isSome_iff_exists.mp enabled
  exact ⟨state, next, heaps, reach, tags, pool, pointers, stepped,
    (recycling_exclusive reach).tags 2 8 next tags found stepped⟩

end Xutex.Recycling
