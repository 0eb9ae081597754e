/-
**The protocol of the word.**

One word carries the lock, the queue and the lock of the queue, three loops decode it from values
that may be stale, and the stores that end an access to the queue are unconditional. This module
says what each step does to the word and to the queue (`Access`), and what follows for the whole
protocol.

* `Access`, `step_access` — **every step is one of a dozen accesses** to the word and the queue.
* `Described.unique`, `Described.after` — the status is a function of the state, and each access
  determines the next one.
* `Custody` — history: the queue the mutex has from the pool, and who has locked it, with the value
  written.
* `word_protocol` — **the word is a constant or the queue the mutex owns, tagged or not; while the
  lock is owned it moves `LOCKED`, `UPDATING`, `p` and back and forth to `p | 1`, until the owner
  writes `UNLOCKED`; the party that wrote `UPDATING` or `p | 1` has the queue for itself and finds
  the word as it left it; and no sentinel is ever taken for a queue.**
-/

import Xutex.Concurrency.Observers
import Xutex.Mutex.Ownership

set_option linter.unusedSectionVars false

namespace Xutex.Mutex

open Concurrency Discipline PointerWidth

variable {ι : Type} [DecidableEq ι]

/-! ### What a step does to the word and to the queue -/

/-- The CAS `UNLOCKED -> LOCKED` is next. -/
def acquiresAt : Pc ι → Bool
  | .tryLock | .lock | .pollLock _ | .contendLock _ => true
  | _ => false

/-- The queue the next CAS tags. -/
def tagsAt : Pc ι → Option ℕ
  | .contendTag _ ptr | .cancelTag ptr | .unlockTag ptr => some ptr
  | _ => none

/-- The queue whose contents are read and written next. -/
def accessesAt : Pc ι → Option ℕ
  | .push _ ptr | .cancelRemove ptr | .unlockPop ptr => some ptr
  | _ => none

/-- The queue that is stored into the word next. -/
def storesAt : Pc ι → Option ℕ
  | .publish _ ptr _ | .cancelUntag ptr _ | .unlockUntag ptr _ => some ptr
  | _ => none

/-- **What one step does to the word and to the queue.** -/
inductive Access (width : PointerWidth) (state next : State ι) : Label ι → Prop
  /-- Neither is written, and the party has no queue. -/
  | quiet {label : Label ι} (word : next.word = state.word) (queues : next.queues = state.queues)
      (before : lockedAt (state.pc label.1) = false) (after : lockedAt (next.pc label.1) = false)
      (chain : chainOf (next.pc label.1) = chainOf (state.pc label.1))
      (untagged : label.2 = .advance → tagsAt (state.pc label.1) ≠ some state.word)
      (unclaimed : label.2 = .advance → ∀ mode, state.pc label.1 = .contendInit mode →
        state.word ≠ width.locked)
      (silent : label.2 = .advance → ∀ node, state.pc label.1 ≠ .signalPublish node) :
      Access width state next label
  /-- The CAS `UNLOCKED -> LOCKED` succeeds. -/
  | acquires {party : ι} (source : acquiresAt (state.pc party) = true)
    (free : state.word = unlocked)
      (word : next.word = width.locked) (queues : next.queues = state.queues)
      (after : lockedAt (next.pc party) = false) (chain : chainOf (next.pc party) = []) :
      Access width state next (party, .advance)
  /-- The CAS `LOCKED -> UPDATING` succeeds. -/
  | claims {party : ι} (mode : Mode) (source : state.pc party = .contendInit mode)
      (found : state.word = width.locked) (word : next.word = width.updating)
      (queues : next.queues = state.queues) (target : next.pc party = .allocate mode) :
      Access width state next (party, .advance)
  /-- The pool hands out a queue. -/
  | allocates {party : ι} (mode : Mode) (ptr : ℕ) (source : state.pc party = .allocate mode)
      (queue : width.IsQueue ptr) (word : next.word = state.word)
      (queues : next.queues = Function.update state.queues ptr [])
      (target : next.pc party = .push mode ptr) : Access width state next (party, .allocate ptr)
  /-- The CAS that tags the queue succeeds. -/
  | tags {party : ι} (ptr : ℕ) (source : tagsAt (state.pc party) = some ptr)
    (found : state.word = ptr)
      (word : next.word = tagPointer ptr) (queues : next.queues = state.queues)
      (target : accessesAt (next.pc party) = some ptr) : Access width state next (party, .advance)
  | pushes {party : ι} (mode : Mode) (ptr : ℕ) (source : state.pc party = .push mode ptr)
      (word : next.word = state.word)
      (queues : next.queues = Function.update state.queues ptr (state.queues ptr ++ [party]))
      (target : next.pc party = .publish mode ptr (state.queues ptr).isEmpty) :
      Access width state next (party, .advance)
  | removes {party : ι} (ptr : ℕ) (source : state.pc party = .cancelRemove ptr)
      (word : next.word = state.word)
      (queues : next.queues = Function.update state.queues ptr ((state.queues ptr).erase party))
      (target : next.pc party = .cancelUntag ptr (decide (party ∈ state.queues ptr))) :
      Access width state next (party, .advance)
  | pops {party : ι} (ptr : ℕ) (node : ι) (rest : List ι) (source : state.pc party = .unlockPop ptr)
      (front : state.queues ptr = node :: rest) (word : next.word = state.word)
      (queues : next.queues = Function.update state.queues ptr rest)
      (target : next.pc party = .unlockUntag ptr node) : Access width state next (party, .advance)
  /-- The pop finds nobody. -/
  | empties {party : ι} (ptr : ℕ) (source : state.pc party = .unlockPop ptr)
    (none : state.queues ptr = [])
      (word : next.word = state.word) (queues : next.queues = state.queues)
      (target : next.pc party = .unlockFree ptr) : Access width state next (party, .advance)
  /-- The plain store that ends an access. -/
  | stores {party : ι} (ptr : ℕ) (source : storesAt (state.pc party) = some ptr)
    (word : next.word = ptr)
      (queues : next.queues = state.queues) (after : lockedAt (next.pc party) = false)
      (chain : chainOf (next.pc party) = chainOf (state.pc party)) :
      Access width state next (party, .advance)
  /-- The plain store that unlocks and gives the queue away. -/
  | frees {party : ι} (ptr : ℕ) (source : state.pc party = .unlockFree ptr)
    (word : next.word = unlocked)
      (queues : next.queues = state.queues) (target : next.pc party = .idle) :
      Access width state next (party, .advance)
  /-- The CAS `LOCKED -> UNLOCKED` succeeds. -/
  | unlocks {party : ι} (source : state.pc party = .unlock) (found : state.word = width.locked)
      (word : next.word = unlocked) (queues : next.queues = state.queues)
      (target : next.pc party = .idle) : Access width state next (party, .advance)
  /-- A node is signalled. -/
  | signals {party : ι} (node : ι) (source : state.pc party = .signalPublish node)
      (word : next.word = state.word) (queues : next.queues = state.queues)
      (target : next.pc party = .idle) : Access width state next (party, .advance)

section Access

variable {width : PointerWidth} {state next : State ι} {party : ι} {mode : Mode} {ptr : ℕ}

/-- A step that goes on without the word and the queue. -/
theorem Access.goto {after : State ι} {pc : Pc ι} (source : state.pc party = pc)
    (word : after.word = state.word) (queues : after.queues = state.queues)
    (before : lockedAt pc = false ∧ tagsAt pc = none ∧ chainOf pc = [] ∧
      ∀ mode, pc ≠ .contendInit mode)
    (target : lockedAt (after.pc party) = false ∧ chainOf (after.pc party) = []) :
    Access width state after (party, .advance) := by
  obtain ⟨unlocked, untagged, chain, unclaimed⟩ := before
  refine .quiet word queues (source ▸ unlocked) target.1 (target.2.trans (source ▸ chain).symm)
    (fun _ => ?_) (fun _ mode same => ?_) (fun _ node same => ?_)
  · rw [source, untagged]
    simp
  · exact absurd (source.symm.trans same) (unclaimed mode)
  · rw [← source, same] at chain
    cases chain

theorem contendNext_plain_access (word : ℕ) :
    lockedAt (contendNext width mode word : Pc ι) = false ∧
      chainOf (contendNext width mode word : Pc ι) = [] := by
  unfold contendNext
  split
  · exact ⟨rfl, rfl⟩
  · split
    · exact ⟨rfl, rfl⟩
    · split <;> exact ⟨rfl, rfl⟩

theorem unlockNext_plain_access (word : ℕ) :
    lockedAt (unlockNext width word : Pc ι) = false ∧ chainOf (unlockNext width word : Pc ι) =
      [] := by
  unfold unlockNext
  split
  · exact ⟨rfl, rfl⟩
  · split <;> exact ⟨rfl, rfl⟩

/-- A CAS on a queue that has moved on. -/
theorem Access.stale {after : State ι} {pc : Pc ι} (source : state.pc party = pc)
    (tags : tagsAt pc = some ptr)
    (stale : state.word ≠ ptr) (word : after.word = state.word)
    (queues : after.queues = state.queues)
    (target : lockedAt (after.pc party) = false ∧ chainOf (after.pc party) = []) :
    Access width state after (party, .advance) := by
  subst source
  have plain : lockedAt (state.pc party) = false ∧ chainOf (state.pc party) = [] ∧
      (∀ mode, state.pc party ≠ .contendInit mode) ∧
      ∀ node, state.pc party ≠ .signalPublish node := by
    revert tags
    cases state.pc party <;> simp [tagsAt, lockedAt, chainOf]
  obtain ⟨unlocked, chain, unclaimed, silent⟩ := plain
  refine .quiet word queues unlocked target.1 (target.2.trans chain.symm) (fun _ same => ?_)
    (fun _ mode same => absurd same (unclaimed mode)) (fun _ => silent)
  exact stale (Option.some.inj (same.symm.trans tags))

theorem tryLock_access (source : state.pc party = .tryLock) :
    Access width state (tryLock width state party) (party, .advance) := by
  unfold tryLock
  split
  · exact .acquires (by rw [source]; rfl) ‹_› rfl rfl (by simp [acquired, lockedAt])
      (by simp [acquired, chainOf])
  · exact .goto source rfl rfl ⟨rfl, rfl, rfl, (by rintro _ ⟨⟩)⟩ (by simp [lockedAt, chainOf])

theorem lock_access (source : state.pc party = .lock) :
    Access width state (lock width state party) (party, .advance) := by
  unfold lock
  split
  · exact .acquires (by rw [source]; rfl) ‹_› rfl rfl (by simp [acquired, lockedAt])
      (by simp [acquired, chainOf])
  · exact .goto source rfl rfl ⟨rfl, rfl, rfl, (by rintro _ ⟨⟩)⟩
      (by simp [lockSlow, lockedAt, chainOf])

theorem pollLock_access {waker : Waker} (source : state.pc party = .pollLock waker) :
    Access width state (pollLock width state party waker) (party, .advance) := by
  unfold pollLock
  split
  · exact .acquires (by rw [source]; rfl) ‹_› rfl rfl (by simp [completed, lockedAt])
      (by simp [completed, chainOf])
  · exact .goto source rfl rfl ⟨rfl, rfl, rfl, (by rintro _ ⟨⟩)⟩
      (by simpa [enqueue] using contendNext_plain_access state.word)

theorem contendLock_access (source : state.pc party = .contendLock mode) :
    Access width state (contendLock width state party mode) (party, .advance) := by
  unfold contendLock
  split
  · cases mode with
    | wait =>
      exact .acquires (by rw [source]; rfl) ‹_› rfl rfl
        (by simp [contendAcquired, acquired, lockedAt])
        (by simp [contendAcquired, acquired, chainOf])
    | poll waker =>
      exact .acquires (by rw [source]; rfl) ‹_› rfl rfl
        (by simp [contendAcquired, completed, lockedAt])
        (by simp [contendAcquired, completed, chainOf])
  · exact .goto source rfl rfl ⟨rfl, rfl, rfl, (by rintro _ ⟨⟩)⟩
      (by simpa using contendNext_plain_access state.word)

theorem contendInit_access (source : state.pc party = .contendInit mode) :
    Access width state (contendInit width state party mode) (party, .advance) := by
  unfold contendInit
  split
  · exact .claims mode source ‹_› rfl rfl (by simp)
  · rename_i moved
    refine .quiet rfl rfl (by rw [source]; rfl) (by simp [lockedAt]) (by simp [source, chainOf])
      (fun _ => ?_) (fun _ _ _ => moved) (fun _ node same => by simp [source] at same)
    simp [source, tagsAt]

theorem waitSwap_access (source : state.pc party = .waitSwap) :
    Access width state (waitSwap state party) (party, .advance) := by
  unfold waitSwap
  dsimp only
  split
  · exact .goto source rfl rfl ⟨rfl, rfl, rfl, (by rintro _ ⟨⟩)⟩
      (by simp [acquired, lockedAt, chainOf])
  · exact .goto source rfl rfl ⟨rfl, rfl, rfl, (by rintro _ ⟨⟩)⟩ (by simp [lockedAt, chainOf])

theorem rearmRegister_access {waker : Waker} (source : state.pc party = .rearmRegister waker) :
    Access width state (rearmRegister state party waker) (party, .advance) := by
  unfold rearmRegister
  dsimp only
  split <;> exact .goto source rfl rfl ⟨rfl, rfl, rfl, (by rintro _ ⟨⟩)⟩
    (by simp [lockedAt, chainOf])

theorem unlockPop_access (source : state.pc party = .unlockPop ptr) :
    Access width state (unlockPop state party ptr) (party, .advance) := by
  unfold unlockPop
  split
  · exact .empties ptr source ‹_› rfl rfl (by simp)
  · exact .pops ptr _ _ source ‹_› rfl rfl (by simp)

theorem cancelLoad_access (source : state.pc party = .cancelLoad)
    (stepped : cancelLoad width state party = some next) :
    Access width state next (party, .advance) := by
  unfold cancelLoad at stepped
  split at stepped
  · cases stepped
    exact .goto source rfl rfl ⟨rfl, rfl, rfl, (by rintro _ ⟨⟩)⟩ (by simp [lockedAt, chainOf])
  · split at stepped
    · cases stepped
    · split at stepped <;> cases stepped
      exact .goto source rfl rfl ⟨rfl, rfl, rfl, (by rintro _ ⟨⟩)⟩ (by simp [lockedAt, chainOf])

theorem advance_access (stepped : advance width state party = some next) :
    Access width state next (party, .advance) := by
  cases source : state.pc party <;>
    simp only [advance, source, Option.some.injEq, reduceCtorEq] at stepped
  case waitPark =>
    unfold waitPark at stepped
    split at stepped <;> cases stepped
    exact .goto source rfl rfl ⟨rfl, rfl, rfl, (by rintro _ ⟨⟩)⟩
      (by simp [acquired, lockedAt, chainOf])
  case cancelLoad => exact cancelLoad_access source stepped
  case cancelSpin =>
    unfold cancelSpin at stepped
    split at stepped <;> cases stepped
    exact .goto source rfl rfl ⟨rfl, rfl, rfl, (by rintro _ ⟨⟩)⟩ (by simp [lockedAt, chainOf])
  all_goals subst stepped
  case tryLock => exact tryLock_access source
  case lock => exact lock_access source
  case pollLock => exact pollLock_access source
  case contendLock => exact contendLock_access source
  case contendInit => exact contendInit_access source
  case contendTag mode ptr =>
    unfold contendTag
    split
    · exact .tags ptr (by rw [source]; rfl) ‹_› rfl rfl (by simp [accessesAt])
    · exact .stale source rfl ‹_› rfl rfl (by simp [lockedAt, chainOf])
  case push mode ptr => exact .pushes mode ptr source rfl rfl (by simp [push])
  case publish mode ptr first =>
    refine .stores ptr (by rw [source]; rfl) rfl rfl ?_ ?_ <;> cases mode <;> cases first <;>
      simp [publish, source, lockedAt, chainOf]
  case waitSpin =>
    unfold waitSpin
    split
    · exact .goto source rfl rfl ⟨rfl, rfl, rfl, (by rintro _ ⟨⟩)⟩
        (by simp [acquired, lockedAt, chainOf])
    · exact .goto source rfl rfl ⟨rfl, rfl, rfl, (by rintro _ ⟨⟩)⟩ (by simp [lockedAt, chainOf])
  case waitSwap => exact waitSwap_access source
  case rearmRegister => exact rearmRegister_access source
  case rearmLoad =>
    unfold rearmLoad
    split
    · exact .goto source rfl rfl ⟨rfl, rfl, rfl, (by rintro _ ⟨⟩)⟩
        (by simp [completed, lockedAt, chainOf])
    · exact .goto source rfl rfl ⟨rfl, rfl, rfl, (by rintro _ ⟨⟩)⟩ (by simp [lockedAt, chainOf])
  case cancelTag ptr =>
    unfold cancelTag
    split
    · exact .tags ptr (by rw [source]; rfl) ‹_› rfl rfl (by simp [accessesAt])
    · exact .stale source rfl ‹_› rfl rfl (by simp [lockedAt, chainOf])
  case cancelRemove ptr => exact .removes ptr source rfl rfl (by simp [cancelRemove])
  case cancelUntag ptr found =>
    refine .stores ptr (by rw [source]; rfl) rfl rfl ?_ ?_ <;> cases found <;>
      simp [cancelUntag, source, lockedAt, chainOf]
  case unlock =>
    unfold unlock
    split
    · exact .unlocks source ‹_› rfl rfl (by simp)
    · exact .goto source rfl rfl ⟨rfl, rfl, rfl, (by rintro _ ⟨⟩)⟩
        (by simpa using unlockNext_plain_access state.word)
  case unlockReload =>
    exact .goto source rfl rfl ⟨rfl, rfl, rfl, (by rintro _ ⟨⟩)⟩
      (by simpa using unlockNext_plain_access state.word)
  case unlockTag ptr =>
    unfold unlockTag
    split
    · exact .tags ptr (by rw [source]; rfl) ‹_› rfl rfl (by simp [accessesAt])
    · exact .stale source rfl ‹_› rfl rfl (by simpa using unlockNext_plain_access state.word)
  case unlockPop => exact unlockPop_access source
  case unlockUntag ptr node =>
    exact .stores ptr (by rw [source]; rfl) rfl rfl (by simp [lockedAt]) (by simp [source, chainOf])
  case unlockFree ptr => exact .frees ptr source rfl rfl (by simp)
  case signalTake node =>
    refine .quiet rfl rfl (by rw [source]; rfl) (by simp [signalTake, lockedAt])
      (by simp [signalTake, source, chainOf]) (fun _ => by simp [source, tagsAt])
      (fun _ _ same => by simp [source] at same) (fun _ _ same => by simp [source] at same)
  case signalPublish node => exact .signals node source rfl rfl (by simp [signalPublish])

/-- The start of a call touches neither the word nor a queue. -/
theorem begin_access {move : Move} (stepped : begin width state party move = some next) :
    Access width state next (party, move) := by
  cases move <;> simp only [begin] at stepped
  case advance => cases stepped
  case allocate ptr =>
    split at stepped
    · rename_i mode source
      split at stepped <;> cases stepped
      exact .allocates mode ptr source ‹_› rfl rfl (by simp [allocate])
    · cases stepped
  all_goals
    split at stepped <;> cases stepped
    rename_i source
  case poll =>
    unfold poll
    split <;> exact .quiet rfl rfl (by rw [source]; rfl) (by simp [completed, source, lockedAt])
      (by simp [completed, source, chainOf]) (by rintro ⟨⟩) (by rintro ⟨⟩) (by rintro ⟨⟩)
  case drop =>
    unfold drop
    split <;> exact .quiet rfl rfl (by rw [source]; rfl) (by simp [lockedAt])
      (by simp [source, chainOf]) (by rintro ⟨⟩) (by rintro ⟨⟩) (by rintro ⟨⟩)
  case dropGuard =>
    exact .quiet rfl rfl (by rw [source.1]; rfl) (by simp [lockedAt]) (by simp [source.1, chainOf])
      (by rintro ⟨⟩) (by rintro ⟨⟩) (by rintro ⟨⟩)
  all_goals
    exact .quiet rfl rfl (by rw [source]; rfl) (by simp [lockedAt]) (by simp [source, chainOf])
      (by rintro ⟨⟩) (by rintro ⟨⟩) (by rintro ⟨⟩)

/-- **Every step is one of these accesses.** -/
theorem step_access {label : Label ι} (stepped : step width state label = some next) :
    Access width state next label := by
  obtain ⟨party, move⟩ := label
  unfold step at stepped
  split at stepped
  · rename_i advances
    obtain rfl : move = .advance := advances
    exact advance_access stepped
  · exact begin_access stepped

/-- Only the party of the label moves. -/
theorem advance_target (stepped : advance width state party = some next) :
    ∃ pc, next.pc = Function.update state.pc party pc := by
  cases source : state.pc party <;>
    simp only [advance, source, Option.some.injEq, reduceCtorEq] at stepped
  case waitPark => unfold waitPark at stepped; split at stepped <;> cases stepped; exact ⟨_, rfl⟩
  case cancelSpin =>
    unfold cancelSpin at stepped
    split at stepped <;> cases stepped
    exact ⟨_, rfl⟩
  case cancelLoad =>
    unfold cancelLoad at stepped
    split at stepped
    · cases stepped; exact ⟨_, rfl⟩
    · split at stepped
      · cases stepped
      · split at stepped <;> cases stepped
        exact ⟨_, rfl⟩
  all_goals subst stepped
  case tryLock => unfold tryLock; split <;> exact ⟨_, rfl⟩
  case lock => unfold lock; split <;> exact ⟨_, rfl⟩
  case pollLock => unfold pollLock; split <;> exact ⟨_, rfl⟩
  case contendLock mode => unfold contendLock; split <;> cases mode <;> exact ⟨_, rfl⟩
  case contendInit => unfold contendInit; split <;> exact ⟨_, rfl⟩
  case contendTag => unfold contendTag; split <;> exact ⟨_, rfl⟩
  case waitSpin => unfold waitSpin; split <;> exact ⟨_, rfl⟩
  case waitSwap => unfold waitSwap; dsimp only; split <;> exact ⟨_, rfl⟩
  case rearmRegister => unfold rearmRegister; dsimp only; split <;> exact ⟨_, rfl⟩
  case rearmLoad => unfold rearmLoad; split <;> exact ⟨_, rfl⟩
  case cancelTag => unfold cancelTag; split <;> exact ⟨_, rfl⟩
  case unlock => unfold unlock; split <;> exact ⟨_, rfl⟩
  case unlockTag => unfold unlockTag; split <;> exact ⟨_, rfl⟩
  case unlockPop => unfold unlockPop; split <;> exact ⟨_, rfl⟩
  all_goals exact ⟨_, rfl⟩

theorem begin_target {move : Move} (stepped : begin width state party move = some next) :
    ∃ pc, next.pc = Function.update state.pc party pc := by
  cases move <;> simp only [begin] at stepped
  case advance => cases stepped
  case allocate =>
    split at stepped
    · split at stepped <;> cases stepped
      exact ⟨_, rfl⟩
    · cases stepped
  all_goals
    split at stepped <;> cases stepped
    rename_i source
  case poll =>
    unfold poll
    split
    case h_3 => exact ⟨.future, by rw [← source, Function.update_eq_self]; rfl⟩
    all_goals exact ⟨_, rfl⟩
  case drop => unfold drop; split <;> exact ⟨_, rfl⟩
  all_goals exact ⟨_, rfl⟩

theorem step_rest {label : Label ι} {other : ι} (stepped : step width state label = some next)
    (different : other ≠ label.1) : next.pc other = state.pc other := by
  obtain ⟨party, move⟩ := label
  have target : ∃ pc, next.pc = Function.update state.pc party pc := by
    unfold step at stepped
    split at stepped
    · exact advance_target stepped
    · exact begin_target stepped
  obtain ⟨pc, target⟩ := target
  rw [target, Function.update_of_ne different]

end Access

/-! ### The status is a function of the state -/

/-- The status a party with the queue in its hands knows. -/
def statusAt (party : ι) : Pc ι → Option (Status ι)
  | .allocate _ => some (.updating party)
  | .push _ ptr | .publish _ ptr _ | .cancelRemove ptr | .cancelUntag ptr _ | .unlockPop ptr
  | .unlockUntag ptr _ | .unlockFree ptr => some (.held party ptr)
  | _ => none

section Status

variable {width : PointerWidth} {state next : State ι} {status status' : Status ι} {party : ι}
  {ptr : ℕ}

section

variable (described : Described width state status)
include described

theorem Described.eq_of_statusAt (known : statusAt party (state.pc party) = some status') :
    status = status' := by
  have here := described.known party
  revert known here
  cases state.pc party <;>
    simp only [statusAt, LocalAt, Option.some.injEq, reduceCtorEq, false_implies] <;>
    rintro rfl
  case unlockFree => exact fun here => here.1
  all_goals exact id

/-- The holder knows the status. -/
theorem Described.statusAt_holder (holds : status.holder = some party) :
    statusAt party (state.pc party) = some status := by
  have locked : lockedAt (state.pc party) = true := (described.waiting.lock party).mpr holds
  have here := described.known party
  revert locked here
  cases state.pc party <;>
    simp only [lockedAt, LocalAt, statusAt, reduceCtorEq, false_implies, true_implies]
  case unlockFree =>
    rintro ⟨rfl, -⟩
    rfl
  all_goals
    rintro rfl
    rfl

/-- The status outlives a step that writes the word no other value and at which nobody with the
queue moves. -/
theorem Described.same (after : Described width next status') (word : next.word = state.word)
    (rest : ∀ party, lockedAt (state.pc party) = true → next.pc party = state.pc party) :
    status' = status := by
  have byHolder (holder : ι) (holds : status.holder = some holder) : status' = status := by
    have known := described.statusAt_holder holds
    rw [← rest holder ((described.waiting.lock holder).mpr holds)] at known
    exact after.eq_of_statusAt known
  have encodes := described.encodes
  rw [← word] at encodes
  cases status with
  | unlocked => exact after.encodes.unlocked_iff.mp encodes
  | locked => exact after.encodes.eq_locked encodes
  | updating holder => exact byHolder holder rfl
  | held holder ptr => exact byHolder holder rfl
  | queue ptr => exact after.encodes.eq_queue encodes.1 encodes.2

/-- The status is a function of the state. -/
theorem Described.unique (after : Described width state status') : status' = status :=
  described.same after rfl fun _ _ => rfl

end

theorem statusAt_of_accesses {pc : Pc ι} (accesses : accessesAt pc = some ptr) :
    statusAt party pc = some (.held party ptr) := by
  revert accesses
  cases pc <;> simp [accessesAt, statusAt]

theorem statusAt_of_stores {pc : Pc ι} (stores : storesAt pc = some ptr) :
    statusAt party pc = some (.held party ptr) := by
  revert stores
  cases pc <;> simp [storesAt, statusAt]

/-- A pointer about to be tagged is a queue's. -/
theorem Described.tags_queue (described : Described width state status)
    (tags : tagsAt (state.pc party) = some ptr) : width.IsQueue ptr := by
  have here := described.known party
  revert tags here
  cases state.pc party <;>
    simp only [tagsAt, LocalAt, Option.some.injEq, reduceCtorEq, false_implies] <;>
    rintro rfl <;> exact id

/-- A step after which the word shows a queue that the party had. -/
theorem Described.stored (described : Described width state (.held party ptr))
    (after : Described width next status') (word : next.word = ptr) : status' = .queue ptr :=
  after.encodes.eq_queue described.encodes.1 word

end Status

/-! ### The custody of the queue -/

/-- History: the queue the mutex has from the pool, and the party that has locked it, with the value
it has written into the word. -/
structure Custody (ι : Type) where
  queue : Option ℕ
  writer : Option (ι × ℕ)
  deriving DecidableEq

/-- The value on which the CAS gives the party the queue: `LOCKED`, for a queue to be made, or a
queue. -/
def claimsAt (width : PointerWidth) : Pc ι → Option ℕ
  | .contendInit _ => some width.locked
  | pc => tagsAt pc

/-- What happens to the custody at a step. -/
def custodyAfter (width : PointerWidth) (custody : Custody ι) (state : State ι) (label : Label ι)
    (next : State ι) : Custody ι :=
  match label.2, state.pc label.1 with
  | .allocate ptr, .allocate _ => { custody with queue := some ptr }
  | .advance, .unlockFree _ => ⟨none, none⟩
  | .advance, .publish _ _ _ | .advance, .cancelUntag _ _ | .advance, .unlockUntag _ _ =>
    { custody with writer := none }
  | .advance, pc =>
    if claimsAt width pc = some state.word then { custody with writer := some (label.1, next.word) }
    else custody
  | _, _ => custody

/-- **The custody of a status.** -/
def Custody.Matches (custody : Custody ι) (word : ℕ) : Status ι → Prop
  | .unlocked | .locked => custody = ⟨none, none⟩
  | .updating party => custody = ⟨none, some (party, word)⟩
  | .held party ptr => custody = ⟨some ptr, some (party, word)⟩
  | .queue ptr => custody = ⟨some ptr, none⟩

section Custody

variable {width : PointerWidth} {state next : State ι} {status status' : Status ι} {party : ι}
  {ptr : ℕ} {custody : Custody ι}

theorem custodyAfter_claims (claims : claimsAt width (state.pc party) = some state.word) :
    custodyAfter width custody state (party, .advance) next =
      { custody with writer := some (party, next.word) } := by
  cases source : state.pc party <;> simp_all [custodyAfter, claimsAt, tagsAt]

theorem custodyAfter_stores (stores : storesAt (state.pc party) = some ptr) :
    custodyAfter width custody state (party, .advance) next = { custody with writer := none } := by
  revert stores
  cases source : state.pc party <;> simp [custodyAfter, source, storesAt]

/-- An access that neither claims the queue nor lets it go. -/
theorem custodyAfter_same (stores : storesAt (state.pc party) = none)
    (keeps : ∀ ptr, state.pc party ≠ .unlockFree ptr)
    (claims : claimsAt width (state.pc party) ≠ some state.word) :
    custodyAfter width custody state (party, .advance) next = custody := by
  cases source : state.pc party <;> simp_all [custodyAfter, claimsAt, tagsAt, storesAt]

theorem custodyAfter_quiet {label : Label ι} (before : lockedAt (state.pc label.1) = false)
    (untagged : label.2 = .advance → tagsAt (state.pc label.1) ≠ some state.word)
    (unclaimed : label.2 = .advance → ∀ mode, state.pc label.1 = .contendInit mode →
      state.word ≠ width.locked) :
    custodyAfter width custody state label next = custody := by
  obtain ⟨party, move⟩ := label
  cases move
  case advance =>
    refine custodyAfter_same ?_ (fun ptr same => ?_) fun claims => ?_
    · revert before
      cases state.pc party <;> simp [lockedAt, storesAt]
    · simp [same, lockedAt] at before
    · cases source : state.pc party
      case contendInit mode =>
        rw [source] at claims
        exact unclaimed rfl mode source (Option.some.inj claims).symm
      all_goals
        rw [source] at claims
        exact untagged rfl (by rw [source]; exact claims)
  case allocate =>
    revert before
    cases source : state.pc party <;> simp [lockedAt, custodyAfter, source]
  all_goals rfl

theorem Described.claims_queue (described : Described width state status)
    (tags : tagsAt (state.pc party) = some ptr) (found : state.word = ptr) : status = .queue ptr :=
  described.encodes.eq_queue (described.tags_queue tags) found

/-- Work on the contents of the queue. -/
theorem Custody.Matches.works {pc : Pc ι} (holds : custody.Matches state.word status)
    (described : Described width state status) (after : Described width next status')
    (word : next.word = state.word) (source : state.pc party = pc)
    (target : statusAt party (next.pc party) = some (.held party ptr))
    (known : statusAt party pc = some (.held party ptr)) (stores : storesAt pc = none)
    (keeps : ∀ ptr, pc ≠ .unlockFree ptr) (claims : claimsAt width pc = none) :
    (custodyAfter width custody state (party, .advance) next).Matches next.word status' := by
  subst source
  obtain rfl := described.eq_of_statusAt known
  obtain rfl := after.eq_of_statusAt target
  rw [custodyAfter_same stores keeps (by rw [claims]; rintro ⟨⟩), word]
  exact holds

/-- **An access keeps the custody with the status.** -/
theorem Custody.Matches.step {label : Label ι} (holds : custody.Matches state.word status)
    (described : Described width state status) (after : Described width next status')
    (stepped : step width state label = some next) :
    (custodyAfter width custody state label next).Matches next.word status' := by
  have rest (other : ι) (different : other ≠ label.1) := step_rest stepped different
  cases step_access stepped with
  | quiet word queues before locked chain untagged unclaimed silent =>
    have same : status' = status := described.same after word fun other held =>
      rest other fun self => by simp [self, before] at held
    rw [custodyAfter_quiet before untagged unclaimed, same, word]
    exact holds
  | @acquires party source free word queues locked chain =>
    obtain rfl := described.encodes.unlocked_iff.mp free
    obtain rfl := after.encodes.eq_locked word
    have plain : storesAt (state.pc party) = none ∧ (∀ ptr, state.pc party ≠ .unlockFree ptr) ∧
        claimsAt width (state.pc party) = none := by
      revert source
      cases state.pc party <;> simp [acquiresAt, storesAt, claimsAt, tagsAt]
    rw [custodyAfter_same plain.1 plain.2.1 (by rw [plain.2.2]; rintro ⟨⟩)]
    exact holds
  | @claims party mode source found word queues target =>
    obtain rfl := described.encodes.eq_locked found
    obtain rfl : status' = .updating party := after.eq_of_statusAt (by rw [target]; rfl)
    have free : custody = ⟨none, none⟩ := holds
    rw [custodyAfter_claims (by rw [source, found]; rfl), free]
    rfl
  | @allocates party mode ptr source queue word queues target =>
    obtain rfl : status = .updating party := described.eq_of_statusAt (by rw [source]; rfl)
    obtain rfl : status' = .held party ptr := after.eq_of_statusAt (by rw [target]; rfl)
    have claimed : custody = ⟨none, some (party, state.word)⟩ := holds
    rw [word]
    simp [custodyAfter, source, claimed, Custody.Matches]
  | @tags party ptr source found word queues target =>
    obtain rfl := described.claims_queue source found
    obtain rfl : status' = .held party ptr := after.eq_of_statusAt (statusAt_of_accesses target)
    have resting : custody = ⟨some ptr, none⟩ := holds
    have claims : claimsAt width (state.pc party) = some state.word := by
      rw [found, ← source]
      revert source
      cases state.pc party <;> simp [tagsAt, claimsAt]
    rw [custodyAfter_claims claims, resting]
    rfl
  | @pushes party mode ptr source word queues target =>
    exact holds.works described after word source (by rw [target]; rfl) rfl rfl (by simp) rfl
  | @removes party ptr source word queues target =>
    exact holds.works described after word source (by rw [target]; rfl) rfl rfl (by simp) rfl
  | @pops party ptr node behind source front word queues target =>
    exact holds.works described after word source (by rw [target]; rfl) rfl rfl (by simp) rfl
  | @empties party ptr source none word queues target =>
    exact holds.works described after word source (by rw [target]; rfl) rfl rfl (by simp) rfl
  | @stores party ptr source word queues locked chain =>
    obtain rfl : status = .held party ptr := described.eq_of_statusAt (statusAt_of_stores source)
    obtain rfl := described.stored after word
    have held : custody = ⟨some ptr, some (party, state.word)⟩ := holds
    rw [custodyAfter_stores source, held]
    rfl
  | @frees party ptr source word queues target =>
    obtain rfl := after.encodes.unlocked_iff.mp word
    simp [custodyAfter, source, Custody.Matches]
  | @unlocks party source found word queues target =>
    obtain rfl := described.encodes.eq_locked found
    obtain rfl := after.encodes.unlocked_iff.mp word
    rw [custodyAfter_same (by rw [source]; rfl) (by simp [source]) (by rw [source]; rintro ⟨⟩)]
    exact holds
  | @signals party node source word queues target =>
    have same : status' = status := described.same after word fun other held =>
      rest other fun self => by simp [show other = party from self, source, lockedAt] at held
    rw [custodyAfter_same (by rw [source]; rfl) (by simp [source]) (by rw [source]; rintro ⟨⟩),
      word, same]
    exact holds

end Custody

/-! ### The protocol -/

/-- **Only the party at an access reads or writes the contents of a queue**: every other step does
the same whatever the queues hold. -/
theorem step_blind {width : PointerWidth} {state : State ι} {label : Label ι} (queues : ℕ → List ι)
    (apart : accessesAt (state.pc label.1) = none) (answered : ∀ ptr, label.2 ≠ .allocate ptr) :
    step width { state with queues := queues } label =
      (step width state label).map fun next => { next with queues := queues } := by
  obtain ⟨party, move⟩ := label
  cases move <;> simp only [step, begin]
  case allocate ptr => exact absurd rfl (answered ptr)
  case advance =>
    cases source : state.pc party <;> simp only [advance, source, Option.map_some, Option.map_none]
    case push | cancelRemove | unlockPop => simp [source, accessesAt] at apart
    case tryLock => unfold tryLock; dsimp only; split <;> rfl
    case lock => unfold lock; dsimp only; split <;> rfl
    case pollLock => unfold pollLock; dsimp only; split <;> rfl
    case contendLock mode => unfold contendLock; dsimp only; split <;> cases mode <;> rfl
    case contendInit => unfold contendInit; dsimp only; split <;> rfl
    case contendTag => unfold contendTag; dsimp only; split <;> rfl
    case waitSpin => unfold waitSpin; dsimp only; split <;> rfl
    case waitSwap => unfold waitSwap; dsimp only; split <;> rfl
    case waitPark => unfold waitPark; dsimp only; split <;> rfl
    case rearmRegister => unfold rearmRegister; dsimp only; split <;> rfl
    case rearmLoad => unfold rearmLoad; dsimp only; split <;> rfl
    case cancelLoad =>
      unfold cancelLoad
      dsimp only
      split
      · rfl
      · split
        · rfl
        · split <;> rfl
    case cancelTag => unfold cancelTag; dsimp only; split <;> rfl
    case cancelSpin => unfold cancelSpin; dsimp only; split <;> rfl
    case unlock => unfold unlock; dsimp only; split <;> rfl
    case unlockTag => unfold unlockTag; dsimp only; split <;> rfl
    all_goals rfl
  case poll => split <;> [(unfold poll; dsimp only; split <;> rfl); rfl]
  case drop => split <;> [(unfold drop; dsimp only; split <;> rfl); rfl]
  all_goals split <;> rfl

/-- The moves of the word while the lock is owned; `p` is the queue of the mutex. -/
inductive WordMoves (width : PointerWidth) (queue : Option ℕ) : ℕ → ℕ → Prop
  | stays (word : ℕ) : WordMoves width queue word word
  | claimed : WordMoves width queue width.locked width.updating
  | published {ptr : ℕ} (owned : queue = some ptr) : WordMoves width queue width.updating ptr
  | tagged {ptr : ℕ} (owned : queue = some ptr) : WordMoves width queue ptr (tagPointer ptr)
  | untagged {ptr : ℕ} (owned : queue = some ptr) : WordMoves width queue (tagPointer ptr) ptr

variable [Fintype ι]

/-- **The protocol of the word.** -/
structure Protocol (width : PointerWidth) (state : State ι) (custody : Custody ι) : Prop where
  /-- The values of the word. -/
  values : state.word = unlocked ∨ state.word = width.locked ∨ state.word = width.updating ∨
    ∃ ptr, custody.queue = some ptr ∧ (state.word = ptr ∨ state.word = tagPointer ptr)
  /-- The queue of the mutex is a queue. -/
  queue : ∀ ptr, custody.queue = some ptr → width.IsQueue ptr
  /-- While the lock is owned, the word moves as it should, or its owner unlocks. -/
  moves : ∀ label next, step width state label = some next → tokens state = 1 →
    WordMoves width custody.queue state.word next.word ∨
      (next.word = unlocked ∧ share state label.1 = 1)
  /-- One party has the queue, the one that wrote `UPDATING` or `p | 1`, and nobody has written
  since. -/
  alone : ∀ party, lockedAt (state.pc party) = true →
    custody.writer = some (party, state.word) ∧
      (state.word = width.updating ∨ ∃ ptr, custody.queue = some ptr ∧ state.word = tagPointer ptr)
  /-- The contents it works on, and what it stores at the end, are those of the queue of the
  mutex. -/
  works : ∀ party ptr, accessesAt (state.pc party) = some ptr ∨
    storesAt (state.pc party) = some ptr ∨
    state.pc party = .unlockFree ptr → lockedAt (state.pc party) = true ∧ custody.queue = some ptr
  /-- Nobody else reads or writes them. -/
  blind : ∀ label queues, accessesAt (state.pc label.1) = none → (∀ ptr, label.2 ≠ .allocate ptr) →
    step width { state with queues := queues } label =
      (step width state label).map fun next => { next with queues := queues }
  /-- What is tagged is a queue. -/
  tags : ∀ party ptr, tagsAt (state.pc party) = some ptr → width.IsQueue ptr
  /-- A queue is no sentinel, and tagging it makes none. -/
  apart : ∀ ptr, width.IsQueue ptr → ptr ≠ width.updating ∧ ptr ≠ width.locked ∧
    tagPointer ptr ≠ width.updating ∧ tagPointer ptr ≠ width.locked
  /-- Tagging `UPDATING` would leave it as it is. -/
  sentinel : tagPointer width.updating = width.updating

/-- The states of every run, with the custody of the queue. -/
abbrev CustodyRuns (width : PointerWidth) : State ι → Custody ι → Prop :=
  (machine ι width).ObservedBy ⟨none, none⟩ (custodyAfter width) fun _ _ _ => True

section Protocol

variable {width : PointerWidth} {state next : State ι} {status : Status ι} {party : ι} {ptr : ℕ}
  {custody : Custody ι}

theorem matches_of_reachable (reach : CustodyRuns width state custody) :
    ∃ status, Owned width state status ∧ custody.Matches state.word status := by
  refine System.ReachableBy.observed
    (fun state custody => ∃ status, Owned width state status ∧ custody.Matches state.word status) ?_
    ?_ reach
  · rintro _ ⟨queues, rfl⟩
    exact ⟨.unlocked, owned_start queues, rfl⟩
  · rintro state custody label next - ⟨status, owned, holds⟩ stepped -
    obtain ⟨status', owned'⟩ := step_keeps owned stepped
    exact ⟨status', owned', holds.step owned.toDescribed owned'.toDescribed stepped⟩

/-- The moves of the word, access by access. -/
theorem Owned.word_moves {label : Label ι} (owned : Owned width state status)
    (holds : custody.Matches state.word status) (stepped : step width state label = some next)
    (held : tokens state = 1) :
    WordMoves width custody.queue state.word next.word ∨
      (next.word = unlocked ∧ share state label.1 = 1) := by
  have stays (word : next.word = state.word) :
      WordMoves width custody.queue state.word next.word := by
    rw [word]
    exact .stays _
  cases step_access stepped with
  | quiet word => exact .inl (stays word)
  | acquires source free word =>
    rw [owned.tokens_eq_word, if_pos free] at held
    cases held
  | claims mode source found word => exact .inl (by rw [found, word]; exact .claimed)
  | allocates mode ptr source queue word => exact .inl (stays word)
  | tags ptr source found word =>
    obtain rfl := owned.toDescribed.claims_queue source found
    have resting : custody = ⟨some ptr, none⟩ := holds
    rw [word, found, resting]
    exact .inl (.tagged rfl)
  | pushes mode ptr source word => exact .inl (stays word)
  | removes ptr source word => exact .inl (stays word)
  | pops ptr node rest source front word => exact .inl (stays word)
  | empties ptr source none word => exact .inl (stays word)
  | @stores party ptr source word =>
    obtain rfl : status = .held party ptr :=
      owned.toDescribed.eq_of_statusAt (statusAt_of_stores source)
    have mine : custody = ⟨some ptr, some (party, state.word)⟩ := holds
    rw [word, mine]
    rcases owned.encodes.2 with updating | tagged
    · exact .inl (by rw [updating]; exact .published rfl)
    · exact .inl (by rw [tagged]; exact .untagged rfl)
  | frees ptr source word =>
    refine .inr ⟨word, ?_⟩
    simp [share, source, shareAt, droppingAt, poppedAt, signalledAt, waitsAt]
  | unlocks source found word =>
    refine .inr ⟨word, ?_⟩
    simp [share, source, shareAt, droppingAt, poppedAt, signalledAt, waitsAt]
  | signals node source word => exact .inl (stays word)

/-- **The protocol of the word holds in every state of every run**, whatever the number of parties
and the interleaving of lockers, cancellers and unlockers. -/
theorem word_protocol (reach : CustodyRuns width state custody) : Protocol width state custody := by
  obtain ⟨status, owned, holds⟩ := matches_of_reachable reach
  have described := owned.toDescribed
  have encodes := described.encodes
  refine ⟨?_, ?_, ?_, ?_, ?_, fun label queues => step_blind queues,
    fun party ptr tags => described.tags_queue tags, fun ptr queue => queue.apart, tag_updating⟩
  · cases status with
    | unlocked => exact .inl encodes
    | locked => exact .inr (.inl encodes)
    | updating party => exact .inr (.inr (.inl encodes))
    | held party ptr =>
      have mine : custody = ⟨some ptr, some (party, state.word)⟩ := holds
      rcases encodes.2 with updating | tagged
      · exact .inr (.inr (.inl updating))
      · exact .inr (.inr (.inr ⟨ptr, by rw [mine], .inr tagged⟩))
    | queue ptr =>
      have resting : custody = ⟨some ptr, none⟩ := holds
      exact .inr (.inr (.inr ⟨ptr, by rw [resting], .inl encodes.2⟩))
  · intro ptr
    cases status <;> simp only [Custody.Matches] at holds <;>
      simp only [holds, Option.some.injEq, reduceCtorEq,
      false_implies] <;> rintro rfl <;> exact encodes.1
  · exact fun label next stepped held => owned.word_moves holds stepped held
  · intro party locked
    have holder : status.holder = some party := (described.waiting.lock party).mp locked
    cases status <;> simp only [Status.holder, Option.some.injEq, reduceCtorEq] at holder <;>
      subst holder <;> simp only [Custody.Matches] at holds
    case updating => exact ⟨by rw [holds], .inl encodes⟩
    case held party ptr =>
      exact ⟨by rw [holds], encodes.2.imp id fun tagged => ⟨ptr, by rw [holds], tagged⟩⟩
  · intro party ptr works
    have known : statusAt party (state.pc party) = some (.held party ptr) := by
      rcases works with accesses | stores | frees
      · exact statusAt_of_accesses accesses
      · exact statusAt_of_stores stores
      · rw [frees]
        rfl
    obtain rfl := described.eq_of_statusAt known
    have mine : custody = ⟨some ptr, some (party, state.word)⟩ := holds
    exact ⟨(described.waiting.lock party).mpr rfl, by rw [mine]⟩

/-- `UPDATING` lies below `LOCKED` by the size of a queue, so it is odd, and tagging it does not
make `LOCKED` of it. -/
theorem tag_updating_ne_locked :
    tagPointer (updating .bits64) = 2 ^ 64 - 17 ∧
      tagPointer (updating .bits64) ≠ locked .bits64 := by
  decide

/-- `a` locks, and the request of `b` has linked its node into a new queue and is about to publish
it. -/
def filling {ι : Type} (a b : ι) : List (Label ι) :=
  [(a, .tryLock), (a, .advance), (b, .create), (b, .poll 0), (b, .advance), (b, .advance),
    (b, .allocate 8), (b, .advance)]

/-- The word is `UPDATING`, as `1` left it, and the queue is its own. -/
theorem word_protocol_filling : ∃ (state : State (Fin 2)) (custody : Custody (Fin 2)),
    CustodyRuns .bits64 state custody ∧ custody = ⟨some 8, some (1, updating .bits64)⟩ ∧
    storesAt (state.pc 1) = some 8 ∧ Protocol .bits64 state custody := by
  obtain ⟨state, custody, reach, ended⟩ := System.exists_observed_of_run (machine (Fin 2) .bits64)
    ⟨none, none⟩ (custodyAfter .bits64)
    (fun state custody => decide (custody = ⟨some 8, some (1, updating .bits64)⟩ ∧
      storesAt (state.pc 1) = some 8)) ⟨fun _ => [], rfl⟩ (filling 0 1) (by decide +kernel)
  obtain ⟨mine, stores⟩ := of_decide_eq_true ended
  exact ⟨state, custody, reach, mine, stores, word_protocol reach⟩

end Protocol

end Xutex.Mutex
