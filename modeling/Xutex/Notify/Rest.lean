/-
**What the notifier looks like at rest: no wakeup was lost.**

A permit is stored only by a CAS on a word without the queue flag, and a waiter links its node only
after it has set the flag and then read a word without a permit; so a permit and a linked node
exclude each other (`Stored.vacant`). The flag without a linked node is the business of the one
holder of the tag-lock, who clears it before the queue is unpublished (`Stored.flag`). With
`Generations` this describes every state in which nobody runs (`no_lost_wakeup`).
-/

import Xutex.Notify.Delivery

set_option linter.unusedSectionVars false

namespace Xutex.Notify

open Concurrency Discipline

variable {ι : Type} [DecidableEq ι] {width : PointerWidth} {state next : State ι} {party : ι}
  {pc : Pc ι}

/-! ### The invariant -/

/-- The party holds the tag-lock, and clears the flag if it leaves nobody behind. -/
def clearsAt : Pc ι → Bool
  | .enqueueFlag _ | .enqueueCas _ _ | .enqueuePush _ => true
  | .notifyPop _ | .broadcastLoad _ | .broadcastDrain _ => true
  | .unlock _ | .cancelRemove => true
  | _ => false

/-- What a party knows about permits at its point. -/
def Known (word : ℕ) : Pc ι → Prop
  | .enqueuePush _ => hasPermit word = false
  | .notifyCas _ cur | .notifySlowCas _ cur => hasQueue cur = false
  | _ => True

/-- **The invariant of the two flags.** -/
structure Stored (state : State ι) : Prop where
  vacant : state.queue.entries ≠ [] → hasPermit state.word = false
  flag : hasQueue state.word = true → state.queue.entries ≠ [] ∨
    ∃ party, clearsAt (state.pc party) = true
  points : ∀ party, Known state.word (state.pc party)

/-- **The rule for one step.** -/
theorem Stored.step (stored : Stored state) (kept : Generations width state)
    (moves : MovesFrom state next party (state.pc party))
    (permit : hasPermit next.word = true → hasPermit state.word = true ∨
      hasQueue state.word = false)
    (entries : next.queue.entries ≠ [] → state.queue.entries ≠ [] ∨ hasPermit next.word = false)
    (raised : hasQueue next.word = true → hasQueue state.word = true ∨
      clearsAt (next.pc party) = true)
    (clears : state.queue.entries ≠ [] ∨ clearsAt (state.pc party) = true →
      next.queue.entries ≠ [] ∨ clearsAt (next.pc party) = true ∨ hasQueue next.word = false)
    (point : Known next.word (next.pc party)) : Stored next := by
  have rest (other : ι) (different : other ≠ party) : next.pc other = state.pc other := by
    obtain ⟨pc', moves⟩ := moves
    exact moves.rest different
  refine ⟨fun linked => ?_, fun flag => ?_, fun other => ?_⟩
  · by_contra unset
    have set : hasPermit next.word = true := Bool.eq_true_of_not_eq_false unset
    rcases entries linked with before | clear
    · rcases permit set with stale | unflagged
      · rw [stored.vacant before] at stale
        cases stale
      · rw [kept.flagged before] at unflagged
        cases unflagged
    · exact unset clear
  · have mine (before : state.queue.entries ≠ [] ∨ clearsAt (state.pc party) = true) :
        next.queue.entries ≠ [] ∨ ∃ other, clearsAt (next.pc other) = true := by
      rcases clears before with linked | holds | clear
      · exact .inl linked
      · exact .inr ⟨party, holds⟩
      · rw [clear] at flag
        cases flag
    rcases raised flag with before | holds
    · rcases stored.flag before with linked | ⟨other, holds⟩
      · exact mine (.inl linked)
      · by_cases self : other = party
        · subst self
          exact mine (.inr holds)
        · exact .inr ⟨other, by rw [rest other self]; exact holds⟩
    · exact .inr ⟨party, holds⟩
  · by_cases self : other = party
    · subst self
      exact point
    · have known := stored.points other
      have place := kept.points other
      rw [rest other self]
      cases source : state.pc other <;> rw [source] at known place <;> try trivial
      -- a party that is about to link its node has set the flag, so that nobody stores a permit
      by_contra unset
      rcases permit (Bool.eq_true_of_not_eq_false unset) with stale | unflagged
      · rw [known] at stale
        cases stale
      · rw [place.1] at unflagged
        cases unflagged

/-! ### The steps -/

/-- A step that touches neither the word nor the queue, by a party without the tag-lock. -/
theorem Stored.untouched (stored : Stored state) (kept : Generations width state)
    (moves : MovesFrom state next party (state.pc party)) (word : next.word = state.word)
    (queue : next.queue.entries = state.queue.entries) (free : clearsAt (state.pc party) = false)
    (point : Known state.word (next.pc party)) : Stored next := by
  refine stored.step kept moves (by rw [word]; exact .inl) (by rw [queue]; exact .inl)
    (by rw [word]; exact .inl) ?_ (by rw [word]; exact point)
  rw [queue, free]
  rintro (linked | holds)
  · exact .inl linked
  · cases holds

/-- A step of the holder of the tag-lock that stays before its unlock. -/
theorem Stored.holds (stored : Stored state) (kept : Generations width state)
    (moves : MovesFrom state next party (state.pc party))
    (permit : hasPermit next.word = true → hasPermit state.word = true)
    (entries : next.queue.entries ≠ [] → state.queue.entries ≠ [] ∨ hasPermit next.word = false)
    (target : next.pc = Function.update state.pc party pc) (clears : clearsAt pc = true)
    (point : Known next.word pc) : Stored next := by
  have target : next.pc party = pc := by
    rw [target, Function.update_self]
  refine stored.step kept moves (fun set => .inl (permit set)) entries (fun _ => .inr ?_)
    (fun _ => .inr (.inl ?_)) ?_
  all_goals rw [target]
  · exact clears
  · exact clears
  · exact point

theorem known_completed {word : ℕ} {mode : Mode} :
    Known word ((completed state party mode).pc party) := by
  cases mode <;> simp [completed, Known]

theorem known_tryTrue {word : ℕ} {attempt : Attempt} :
    Known word ((tryTrue state party attempt).pc party) := by
  unfold tryTrue
  split <;> exact known_completed

theorem known_tryNext {word cur : ℕ} {attempt : Attempt} :
    Known word ((tryNext state party attempt cur).pc party) := by
  unfold tryNext
  split
  · exact known_tryTrue
  · split
    · simp [Known]
    · cases attempt <;> simp [tryFalse, Known]

theorem known_notifyNext {word cur : ℕ} {passed : Bool} :
    Known word ((notifyNext state party passed cur).pc party) := by
  unfold notifyNext
  split
  · simp [Known]
  · split <;> simp_all [Known]

theorem known_passOn {word : ℕ} {value : SignalValue} :
    Known word ((passOn state party value).pc party) := by
  unfold passOn
  split <;> simp [Known]

theorem known_pollFinal {word : ℕ} {waker : Waker} {value : SignalValue} :
    Known word ((pollFinal state party waker value).pc party) := by
  unfold pollFinal
  split
  · simp [Known]
  · exact known_completed

theorem known_signalNext {word : ℕ} {all : Bool} {chain : List ι} :
    Known word ((signalNext state party all chain).pc party) := by
  cases chain <;> simp [signalNext, Known]

theorem known_unlocked {word : ℕ} {back : Unlock ι} :
    Known word ((unlocked state party back).pc party) := by
  unfold unlocked
  split
  case h_1 => exact known_completed
  case h_6 => exact known_signalNext
  all_goals simp [Known]

/-- Where a quiet step ends, with what it has read. -/
theorem advance_known (quiet : quietAt (state.pc party) = true)
    (stepped : advance width state party = some next) : Known state.word (next.pc party) := by
  cases source : state.pc party <;>
    simp only [quietAt, source, Bool.false_eq_true] at quiet <;>
    simp only [advance, source, Option.some.injEq] at stepped
  case waitPark =>
    unfold waitPark at stepped
    dsimp only at stepped
    split at stepped <;> cases stepped
    exact known_completed
  case cancelWait =>
    unfold cancelWait at stepped
    dsimp only at stepped
    split at stepped <;> cases stepped
    exact known_passOn
  all_goals subst stepped
  case tryLoad => exact known_tryNext
  case notifyLoad =>
    unfold notifyLoad
    split
    · simp [Known]
    · split <;> simp_all [Known]
  case notifySlow => exact known_notifyNext
  case signalTake => simp [signalTake, Known]
  case signalPublish => exact known_signalNext
  case waitSwap =>
    unfold waitSwap
    dsimp only
    split
    · exact known_completed
    · simp [Known]
  case rearmRegister =>
    unfold rearmRegister
    dsimp only
    split <;> simp [Known]
  case rearmLoad =>
    unfold rearmLoad
    dsimp only
    split
    · exact known_pollFinal
    · simp [Known]

section

variable (stored : Stored state) (kept : Generations width state)
include stored kept

theorem tryCas_stored {attempt : Attempt} {cur : ℕ} (source : state.pc party = .tryCas attempt cur)
    (moves : MovesFrom state (tryCas width state party attempt cur) party (state.pc party)) :
    Stored (tryCas width state party attempt cur) := by
  have free : clearsAt (state.pc party) = false := by rw [source]; rfl
  revert moves
  unfold tryCas
  split
  · rename_i same
    intro moves
    have ends : Untouched ({ state with word := clearPermit width cur }.consume true)
        (tryTrue ({ state with word := clearPermit width cur }.consume true) party attempt) party :=
      tryTrue_untouched
    have word := ends.word
    have queue := congrArg WaitQueue.entries ends.queue
    refine stored.step kept moves ?_ ?_ ?_ ?_ known_tryTrue
    · rw [word]
      simp
    · rw [queue]
      exact .inl
    · rw [word]
      simpa [same] using .inl
    · rw [queue, free]
      rintro (linked | holds)
      · exact .inl linked
      · cases holds
  · exact fun moves => stored.untouched kept moves tryNext_untouched.word
      (congrArg WaitQueue.entries tryNext_untouched.queue) free known_tryNext

/-- **A permit is stored**: the word had no queue flag, so that nobody is linked or about to be. -/
theorem setPermit_stored (moves : MovesFrom state next party (state.pc party))
    (word : next.word = setPermit state.word) (queue : next.queue.entries = state.queue.entries)
    (free : clearsAt (state.pc party) = false) (unflagged : hasQueue state.word = false)
    (target : next.pc = Function.update state.pc party .idle) : Stored next := by
  refine stored.step kept moves (fun _ => .inr unflagged) (by rw [queue]; exact .inl) ?_ ?_
    (by simp [target, Known])
  · rw [word, setPermit_hasQueue]
    exact .inl
  · rw [queue, free]
    rintro (linked | holds)
    · exact .inl linked
    · cases holds

theorem notifyCas_stored {passed : Bool} {cur : ℕ} (source : state.pc party = .notifyCas passed cur)
    (moves : MovesFrom state (notifyCas state party passed cur) party (state.pc party)) :
    Stored (notifyCas state party passed cur) := by
  have free : clearsAt (state.pc party) = false := by rw [source]; rfl
  have known := stored.points party
  rw [source] at known
  revert moves
  unfold notifyCas
  split
  · rename_i same
    subst same
    exact fun moves => setPermit_stored stored kept moves rfl rfl free known rfl
  · exact fun moves => stored.untouched kept moves rfl rfl free (by simp [Known])

theorem notifySlowCas_stored {passed : Bool} {cur : ℕ}
    (source : state.pc party = .notifySlowCas passed cur)
    (moves : MovesFrom state (notifySlowCas state party passed cur) party (state.pc party)) :
    Stored (notifySlowCas state party passed cur) := by
  have free : clearsAt (state.pc party) = false := by rw [source]; rfl
  have known := stored.points party
  rw [source] at known
  revert moves
  unfold notifySlowCas
  split
  · rename_i same
    subst same
    exact fun moves => setPermit_stored stored kept moves rfl rfl free known rfl
  · exact fun moves => stored.untouched kept moves notifyNext_untouched.word
      (congrArg WaitQueue.entries notifyNext_untouched.queue) free known_notifyNext

/-- The word that `enqueue_or_complete` has read decides where it goes on, under the tag-lock. -/
theorem enqueueNext_stored {mode : Mode} {word : ℕ} (permit : hasPermit word = hasPermit state.word)
    (moves : MovesFrom state ({ state with word := word }.goto party
      (enqueueNext state party mode word)) party (state.pc party)) :
    Stored ({ state with word := word }.goto party (enqueueNext state party mode word)) := by
  revert moves
  unfold enqueueNext
  split
  · exact fun moves => stored.holds kept moves permit.symm.trans .inl rfl rfl trivial
  · split
    · exact fun moves => stored.holds kept moves permit.symm.trans .inl rfl rfl trivial
    · rename_i none
      exact fun moves => stored.holds kept moves permit.symm.trans .inl rfl rfl
        (Bool.eq_false_of_not_eq_true none)

end

theorem unlocked_entries {back : Unlock ι} :
    (unlocked { state with queue := state.queue.unlock } party back).queue.entries =
    state.queue.entries := by
  rw [unlocked_untouched.queue]
  rfl

section

variable (stored : Stored state) (kept : Generations width state)
include stored kept

/-- `LockedQueue::unlock` clears the flag of an empty queue first. -/
theorem unlock_stored {back : Unlock ι}
    (moves : MovesFrom state (unlock width state party back) party (state.pc party)) :
    Stored (unlock width state party back) := by
  revert moves
  unfold unlock
  split
  · refine fun moves => stored.step kept moves ?_ .inl (fun flag => ?_) (fun _ => .inr (.inr ?_)) ?_
    · simpa using .inl
    · simp at flag
    · simp
    · simp [Known]
  · rename_i linked
    have linked : state.queue.entries ≠ [] := fun empty => linked (List.isEmpty_iff.mpr empty)
    have word :
        (unlocked { state with queue := state.queue.unlock } party back).word = state.word :=
      unlocked_untouched.word
    exact fun moves => stored.step kept moves (by rw [word]; exact .inl)
      (by rw [unlocked_entries]; exact .inl)
      (by rw [word]; exact .inl) (fun _ => .inl (by rw [unlocked_entries]; exact linked))
        known_unlocked

/-- **Every step inside a call keeps the two flags apart.** -/
theorem advance_stored (stepped : advance width state party = some next) : Stored next := by
  have moves := advance_moves kept.waiting stepped
  by_cases quiet : quietAt (state.pc party) = true
  · have ends := advance_untouched quiet stepped
    have free : clearsAt (state.pc party) = false := by
      revert quiet
      cases state.pc party <;> simp [quietAt, clearsAt]
    exact stored.untouched kept moves ends.word (congrArg WaitQueue.entries ends.queue) free
      (advance_known quiet stepped)
  have known := stored.points party
  cases source : state.pc party <;> rw [source] at known <;>
    simp only [advance, source, Option.some.injEq, reduceCtorEq] at stepped
  case enqueueLock =>
    unfold enqueueLock at stepped
    split at stepped <;> cases stepped
    obtain ⟨-, rfl, -⟩ := WaitQueue.lock_acquired ‹_›
    exact stored.holds kept moves id .inl rfl rfl trivial
  case notifyLock =>
    unfold notifyLock at stepped
    split at stepped <;> cases stepped
    · exact stored.untouched kept moves rfl rfl (by rw [source]; rfl) (by simp [Known])
    · obtain ⟨-, rfl, -⟩ := WaitQueue.lock_acquired ‹_›
      exact stored.holds kept moves id .inl rfl rfl trivial
  case broadcastLock =>
    unfold broadcastLock at stepped
    split at stepped <;> cases stepped
    · exact stored.untouched kept moves rfl rfl (by rw [source]; rfl) (by simp [Known])
    · obtain ⟨-, rfl, -⟩ := WaitQueue.lock_acquired ‹_›
      exact stored.holds kept moves id .inl rfl rfl trivial
  case cancelLock =>
    unfold cancelLock at stepped
    split at stepped <;> cases stepped
    · exact stored.untouched kept moves rfl rfl (by rw [source]; rfl) (by simp [Known])
    · obtain ⟨-, rfl, -⟩ := WaitQueue.lock_acquired ‹_›
      exact stored.holds kept moves id .inl rfl rfl trivial
  case waitPark | cancelWait => simp [source, quietAt] at quiet
  all_goals subst stepped
  case tryCas => exact tryCas_stored stored kept source moves
  case notifyCas => exact notifyCas_stored stored kept source moves
  case notifySlowCas => exact notifySlowCas_stored stored kept source moves
  case broadcastAdd =>
    refine stored.step kept moves ?_ .inl ?_ ?_ ?_
    · simpa [broadcastAdd] using .inl
    · simpa [broadcastAdd] using .inl
    · rw [source]
      rintro (linked | holds)
      · exact .inl linked
      · cases holds
    · simp only [broadcastAdd, State.goto, Function.update_self]
      split <;> trivial
  case enqueueFlag => exact enqueueNext_stored stored kept setQueue_hasPermit moves
  case enqueueCas mode cur =>
    revert moves
    unfold enqueueCas
    split
    · exact fun moves => stored.holds kept moves (by simp) .inl rfl rfl trivial
    · exact fun moves => enqueueNext_stored stored kept rfl moves
  case enqueuePush mode =>
    exact stored.holds kept moves id (fun _ => .inr known) rfl rfl trivial
  case notifyPop passed =>
    revert moves
    unfold notifyPop
    split
    · exact fun moves => stored.holds kept moves id .inl rfl rfl trivial
    · rename_i front rest linked
      exact fun moves => stored.holds kept moves id (fun _ => .inl (by rw [linked]; rintro ⟨⟩)) rfl
        rfl trivial
  case broadcastLoad => exact stored.holds kept moves id .inl rfl rfl trivial
  case broadcastDrain liveGen =>
    refine stored.holds kept moves id (fun linked => .inl fun empty => linked ?_) rfl rfl trivial
    simp [broadcastDrain, empty]
  case unlock => exact unlock_stored stored kept moves
  case unlockStore back =>
    exact stored.untouched kept moves unlocked_untouched.word unlocked_entries (by rw [source]; rfl)
      known_unlocked
  case cancelRemove =>
    revert moves
    unfold cancelRemove
    split
    · rename_i linked
      exact fun moves => stored.holds kept moves id (fun _ => .inl (List.ne_nil_of_mem linked))
        rfl rfl trivial
    · exact fun moves => stored.holds kept moves id .inl rfl rfl trivial
  all_goals simp [source, quietAt] at quiet

theorem begin_stored {move : Move} (stepped : begin state party move = some next) :
    Stored next := by
  have moves := begin_moves stepped
  have ends := begin_untouched stepped
  have free : clearsAt (state.pc party) = false := by
    rcases begin_source stepped with source | source <;> rw [source] <;> rfl
  refine stored.untouched kept moves ends.word (congrArg WaitQueue.entries ends.queue) free ?_
  cases move <;> simp only [begin] at stepped
  case advance => cases stepped
  case poll =>
    split at stepped <;> cases stepped
    unfold poll
    dsimp only
    split
    · simp [Known]
    · split
      · simp [Known]
      · exact known_pollFinal
  case drop =>
    split at stepped <;> cases stepped
    unfold drop
    split
    case h_4 => exact known_passOn
    all_goals simp [Known]
  all_goals
    split at stepped <;> cases stepped
    simp [Known]

end

/-! ### Whole runs -/

/-- **The two flags are kept apart in every state of every run** without a generation that wraps
around. -/
theorem stored_of_reachable (reach : UnwrappedRuns width state) : Stored state := by
  refine reach.invariant Stored ?_ ?_
  · rintro _ rfl
    refine ⟨fun linked => absurd rfl linked, fun flag => ?_, fun _ => trivial⟩
    exact absurd (show hasQueue 0 = true from flag) (by decide)
  · intro state label next reach stored stepped _
    have kept := generations_of_reachable reach
    have stepped : step width state label = some next := stepped
    unfold step at stepped
    split at stepped
    · exact advance_stored stored kept stepped
    · exact begin_stored stored kept stepped

/-- The party runs nothing: it is in no call, or parked in one. -/
def restsAt : Pc ι → Bool
  | .idle | .future | .waitPark => true
  | _ => false

/-- **No wakeup is lost.** -/
structure NoLostWakeup (state : State ι) : Prop where
  ordered : state.queue.entries.Pairwise fun first second =>
    (state.signal first).aux ≤ (state.signal second).aux
  vacant : state.queue.entries ≠ [] → hasPermit state.word = false
  /-- When nobody runs, the flag says whether somebody is linked, and whoever is linked waits for
  the current generation. -/
  rest : (∀ party, restsAt (state.pc party) = true) →
    (hasQueue state.word = true ↔ state.queue.entries ≠ []) ∧
      ∀ node ∈ state.queue.entries, (state.signal node).aux = generation state.word
  /-- When nobody runs, a waiter that was not signalled has captured the current generation, and
  there is no permit. -/
  parked : (∀ party, restsAt (state.pc party) = true) → ∀ party,
    waitsAt (state.pc party) (state.signal party).value = true →
      (state.signal party).value.isFinal = false →
      party ∈ state.queue.entries ∧ state.captured party = generation state.word ∧
        hasPermit state.word = false

/-- **No lost wakeup**, in every state of every run with fewer broadcasts than there are
generations. -/
theorem no_lost_wakeup (reach : UnwrappedRuns width state) : NoLostWakeup state := by
  have kept := generations_of_reachable reach
  have stored := stored_of_reachable reach
  have current (rests : ∀ party, restsAt (state.pc party) = true) (node : ι)
      (member : node ∈ state.queue.entries) : (state.signal node).aux = generation state.word := by
    refine Nat.le_antisymm (kept.present node member) (Nat.not_lt.mp fun older => ?_)
    obtain ⟨party, covers⟩ := kept.covered node member older
    have asleep := rests party
    revert covers asleep
    cases state.pc party <;> simp [restsAt, coversAt]
  refine ⟨kept.ordered, stored.vacant, fun rests => ⟨⟨fun flag => ?_, kept.flagged⟩, current rests⟩,
    fun rests party waits unsignalled => ?_⟩
  · rcases stored.flag flag with linked | ⟨party, clears⟩
    · exact linked
    · have asleep := rests party
      revert clears asleep
      cases state.pc party <;> simp [restsAt, clearsAt]
  · have linked : party ∈ state.queue.entries := by
      have unsignalled : ¬(valueOf state.waiters party).isFinal = true :=
        ne_true_of_eq_false unsignalled
      rcases kept.waiting.placed.located party waits unsignalled with queued | ⟨other, popped⟩
      · exact queued
      · have asleep := rests other
        have popped : party ∈ chainOf (state.pc other) := popped
        revert popped asleep
        cases state.pc other <;> simp [restsAt, chainOf]
    exact ⟨linked, (kept.stamped party linked).symm.trans (current rests party linked),
      stored.vacant (List.ne_nil_of_mem linked)⟩

/-- The future `a` waits and is released by a broadcast of `c`; then the thread `b` waits and
parks. -/
def parksAfterBroadcast {ι : Type} (a b c : ι) : List (Label ι) :=
  List.flatten [[(a, .create), (a, .poll 0)], List.replicate 6 (a, .advance), [(c, .notifyWaiters)],
    List.replicate 8 (c, .advance), [(b, .wait)], List.replicate 6 (b, .advance)]

/-- Everybody rests, `0` was signalled, and `1` waits for the second generation. -/
theorem no_lost_wakeup_parked : ∃ state : State (Fin 3), UnwrappedRuns .bits64 state ∧
    state.queue.entries = [1] ∧ (state.signal 0).value = .all ∧ generation state.word = 1 ∧
    state.captured 1 = 1 ∧ hasPermit state.word = false := by
  obtain ⟨state, reach, ended⟩ := System.exists_reachableBy_of_run (machine (Fin 3) .bits64)
    (fun _ _ next => decide (next.broadcasts < generations .bits64))
    (fun state => decide (state.queue.entries = [1] ∧ (state.signal 0).value = .all ∧
      generation state.word = 1 ∧
      (∀ party, restsAt (state.pc party) = true) ∧ state.pc 1 = .waitPark ∧
      (state.signal 1).value = .initWaiting)) rfl (parksAfterBroadcast 0 1 2) (by decide +kernel)
  obtain ⟨linked, released, live, rests, parks, unsignalled⟩ := of_decide_eq_true ended
  have unwrapped : UnwrappedRuns .bits64 state := reach.mono fun _ _ _ => of_decide_eq_true
  obtain ⟨-, current, clear⟩ := (no_lost_wakeup unwrapped).parked rests 1 (by rw [parks]; rfl)
    (by rw [unsignalled]; rfl)
  exact ⟨state, unwrapped, linked, released, live, current.trans live, clear⟩

end Xutex.Notify
