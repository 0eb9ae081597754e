/-
**The mutex at a standstill.**

When no call on the mutex goes on, nobody edits the queue, and whoever is blocked has its node in
the published queue. The lock is then owned by a guard that nobody drops, or by a pending request
that was handed it and woken.

* `Reloads` — the drop of a guard that has to look at the word again never finds `LOCKED`, so its
  loop is left when the queue is free.
* `halting` — where the calls of the mutex can stop.
* `SleepingRuns` — the runs in which no rearm replaces a waker that the signaler has taken. In the
  others the code can leave a request that was handed the lock without a wake-up since its latest
  poll.
* `rests_or_parks_of_standstill` — in every run, no call is left in a loop at a standstill.
* `standstill_owned` — **the standstill of the mutex**, in the runs of `SleepingRuns`.
-/

import Xutex.Core.Standstill
import Xutex.Mutex.Sleepers

set_option linter.unusedSectionVars false

namespace Xutex.Mutex

open Concurrency Discipline PointerWidth Sleeping

variable {ι : Type} [DecidableEq ι]

/-! ### The drop of a guard that looks again -/

/-- The CAS `LOCKED -> UNLOCKED` has failed, and the queue is not yet tagged. -/
def reloadsAt : Pc ι → Bool
  | .unlockReload | .unlockTag _ => true
  | _ => false

section Reloads

variable {width : PointerWidth} {state next : State ι} {status : Status ι} {party : ι}
  {label : Label ι}

theorem contendNext_reloads (width : PointerWidth) (mode : Mode) (word : ℕ) :
    reloadsAt (contendNext width mode word : Pc ι) = false := by
  unfold contendNext
  split
  · rfl
  · split
    · rfl
    · split <;> rfl

theorem advance_reloads (stepped : advance width state party = some next)
    (reloads : reloadsAt (next.pc party) = true) : next.word = state.word ∧
      (reloadsAt (state.pc party) = true ∨ state.pc party = .unlock ∧
        state.word ≠ width.locked) := by
  cases source : state.pc party <;>
    simp only [advance, source, Option.some.injEq, reduceCtorEq] at stepped
  case waitPark =>
    unfold waitPark at stepped
    split at stepped <;> cases stepped
    simp [acquired, reloadsAt] at reloads
  case cancelSpin =>
    unfold cancelSpin at stepped
    split at stepped <;> cases stepped
    simp [reloadsAt] at reloads
  case cancelLoad =>
    unfold cancelLoad at stepped
    repeat' split at stepped
    all_goals cases stepped
    all_goals simp [reloadsAt] at reloads
  all_goals subst stepped
  case unlock =>
    unfold unlock at reloads ⊢
    split
    · rename_i found
      rw [if_pos found] at reloads
      simp [reloadsAt] at reloads
    · rename_i moved
      exact ⟨rfl, .inr ⟨rfl, moved⟩⟩
  case unlockReload => exact ⟨rfl, .inl rfl⟩
  case unlockTag ptr =>
    unfold unlockTag at reloads ⊢
    split
    · rename_i found
      rw [if_pos found] at reloads
      simp [reloadsAt] at reloads
    · exact ⟨rfl, .inl rfl⟩
  all_goals exfalso
  case tryLock => unfold tryLock at reloads; split at reloads <;>
    simp [acquired, reloadsAt] at reloads
  case lock => unfold lock at reloads; split at reloads <;>
    simp [acquired, lockSlow, reloadsAt] at reloads
  case pollLock =>
    unfold pollLock at reloads
    split at reloads
    · simp [completed, reloadsAt] at reloads
    · simp [enqueue, contendNext_reloads] at reloads
  case contendLock mode =>
    unfold contendLock at reloads
    split at reloads
    · cases mode <;> simp [contendAcquired, acquired, completed, reloadsAt] at reloads
    · simp [contendNext_reloads] at reloads
  case contendInit => unfold contendInit at reloads; split at reloads <;>
    simp [reloadsAt] at reloads
  case contendTag => unfold contendTag at reloads; split at reloads <;> simp [reloadsAt] at reloads
  case publish mode _ first => cases mode <;> cases first <;> simp [publish, reloadsAt] at reloads
  case waitSpin => unfold waitSpin at reloads; split at reloads <;>
    simp [acquired, reloadsAt] at reloads
  case waitSwap => unfold waitSwap at reloads; dsimp only at reloads; split at reloads <;>
    simp [acquired, reloadsAt] at reloads
  case rearmRegister =>
    unfold rearmRegister at reloads
    dsimp only at reloads
    split at reloads <;> simp [reloadsAt] at reloads
  case rearmLoad => unfold rearmLoad at reloads; split at reloads <;>
    simp [completed, reloadsAt] at reloads
  case cancelTag => unfold cancelTag at reloads; split at reloads <;> simp [reloadsAt] at reloads
  case cancelUntag _ found => cases found <;> simp [cancelUntag, reloadsAt] at reloads
  case unlockPop => unfold unlockPop at reloads; split at reloads <;> simp [reloadsAt] at reloads
  all_goals simp [push, cancelRemove, signalTake, signalPublish, reloadsAt] at reloads

/-- No call begins there. -/
theorem begin_reloads {move : Move} (stepped : begin width state party move = some next) :
    reloadsAt (next.pc party) = false := by
  cases move <;> simp only [begin] at stepped
  case advance => cases stepped
  case allocate =>
    split at stepped
    · split at stepped <;> cases stepped
      simp [allocate, reloadsAt]
    · cases stepped
  all_goals
    split at stepped <;> cases stepped
    rename_i source
  case poll => unfold poll; split <;> simp [completed, source, reloadsAt]
  case drop => unfold drop; split <;> simp [reloadsAt]
  all_goals simp [reloadsAt]

/-- `LOCKED` is written only over `UNLOCKED`. -/
theorem locked_before (described : Described width state status)
    (stepped : step width state label = some next)
    (locked : next.word = width.locked) : state.word = width.locked ∨ state.word = unlocked := by
  have pos := width.updating_pos
  have top := width.updating_lt_locked
  cases step_access stepped with
  | quiet word | allocates _ _ _ _ word | pushes _ _ _ word | removes _ _ word | pops _ _ _ _ _ word
  | empties _ _ _ word | signals _ _ word => exact .inl (word ▸ locked)
  | acquires source free word => exact .inr free
  | claims mode source found word => omega
  | tags ptr source found word =>
    exact absurd (word ▸ locked) (described.tags_queue source).apart.2.2.2
  | @stores party ptr source word =>
    obtain rfl : status = .held party ptr := described.eq_of_statusAt (statusAt_of_stores source)
    have below := described.encodes.1.below
    omega
  | frees ptr source word =>
    rw [word, unlocked] at locked
    omega
  | unlocks source found word =>
    rw [word, unlocked] at locked
    omega

variable [Fintype ι]

/-- **The drop of a guard that has to look again does not find `LOCKED`.** -/
theorem reloads_of_reachable {allowed : State ι → Label ι → State ι → Prop}
    (reach : (machine ι width).ReachableBy allowed state) (party : ι)
    (reloads : reloadsAt (state.pc party) = true) : state.word ≠ width.locked := by
  revert party
  refine reach.invariant
    (fun state => ∀ party, reloadsAt (state.pc party) = true → state.word ≠ width.locked) ?_ ?_
  · rintro _ ⟨queues, rfl⟩ party reloads
    cases reloads
  · intro state label next before kept stepped _ party reloads locked
    obtain ⟨status, owned⟩ := owned_of_reachable (before.mono fun _ _ _ _ => trivial)
    have stepped : step width state label = some next := stepped
    -- whoever drops a guard owns the lock
    have owner (here : reloadsAt (state.pc party) = true) : state.word ≠ width.locked ∧
        state.word ≠ unlocked := by
      have holds : 0 < shareAt (state.pc party) (state.signal party).value := by
        revert here
        cases state.pc party <;> simp [reloadsAt, shareAt, droppingAt]
      exact ⟨kept party here, owned.locked_of_share rfl holds⟩
    have earlier := locked_before owned.toDescribed stepped locked
    by_cases self : party = label.1
    · subst self
      unfold step at stepped
      split at stepped
      · obtain ⟨word, here | ⟨-, moved⟩⟩ := advance_reloads stepped reloads
        · exact (owner here).1 (word ▸ locked)
        · exact moved (word ▸ locked)
      · rw [begin_reloads stepped] at reloads
        cases reloads
    · rw [step_rest stepped self] at reloads
      rcases earlier with same | free
      · exact (owner reloads).1 same
      · exact (owner reloads).2 free

end Reloads

/-! ### Where a call can stop -/

def haltAt : Pc ι → Halt
  | .idle | .future => .rests
  | .contendLock _ | .unlockReload | .cancelLoad => .spins
  | .cancelSpin => .awaits
  | .waitPark => .parks
  | _ => .goes

/-- The moves by which a call goes on: its own steps, and the answer of the allocator. -/
def Move.isInternal : Move → Bool
  | .advance | .allocate _ => true
  | _ => false

/-- **The ends of the mutex's steps.** -/
def halting (ι : Type) [DecidableEq ι] (width : PointerWidth) : Halting (sleeping ι width) where
  halt := haltAt
  internal := Move.isInternal
  advanceInternal := rfl
  lockedGoes {pc} locked := by
    cases pc <;> first | rfl | cases locked
  signalerGoes {pc} busy := by
    cases pc <;> first | rfl | exact absurd rfl busy
  parkedParks {pc} := by
    refine ⟨fun parked => ?_, fun parks => ?_⟩
    · rw [show pc = .waitPark from eq_waitPark parked]
      rfl
    · cases pc <;> first | rfl | cases parks
  awaitsGone {pc} awaits := by
    cases pc <;> first | rfl | cases awaits

section Halts

variable {width : PointerWidth} {state : State ι} {status : Status ι} {party : ι}

/-- The allocator answers, and every other call goes on by itself. -/
theorem step_of_goes (goes : haltAt (state.pc party) = .goes) :
    ∃ move next, move.isInternal = true ∧ step width state (party, move) = some next := by
  cases source : state.pc party <;> rw [source] at goes
  case allocate mode =>
    have queue : width.IsQueue 8 := by cases width <;> decide
    refine ⟨.allocate 8, allocate state party mode 8, rfl, ?_⟩
    simp only [step, begin, source, if_pos queue]
  all_goals first
    | cases goes; done
    | refine ⟨.advance, ?_⟩
      simp only [step, advance, source, Option.some.injEq, true_and, exists_eq', Move.isInternal]

/-- Where the loop of `lock_slow` and `enqueue` goes on when nobody edits the queue. -/
theorem contendNext_free {mode : Mode} (described : Described width state status)
    (free : status.holder = none)
    (locked : state.word ≠ unlocked) :
    (contendNext width mode state.word : Pc ι) ≠ .contendLock mode := by
  have top := width.updating_lt_locked
  have encodes := described.encodes
  cases status with
  | unlocked => exact absurd encodes locked
  | updating party | held party ptr => cases free
  | locked =>
    rw [show state.word = width.locked from encodes, contendNext, if_neg (by omega), if_pos rfl]
    rintro ⟨⟩
  | queue ptr =>
    obtain ⟨queue, same⟩ := encodes
    have below := queue.below
    rw [same, contendNext, if_neg (by omega), if_neg (by omega), queue.untag]
    rintro ⟨⟩

theorem unlockNext_free (described : Described width state status) (free : status.holder = none)
    (moved : state.word ≠ width.locked) (owned : state.word ≠ unlocked) :
    (unlockNext width state.word : Pc ι) ≠ .unlockReload := by
  have top := width.updating_lt_locked
  have encodes := described.encodes
  cases status with
  | unlocked => exact absurd encodes owned
  | locked => exact absurd encodes moved
  | updating party | held party ptr => cases free
  | queue ptr =>
    obtain ⟨queue, same⟩ := encodes
    have below := queue.below
    rw [same, unlockNext, if_neg (by omega), queue.untag]
    rintro ⟨⟩

theorem cancelLoad_free (party : ι) (described : Described width state status)
    (free : status.holder = none) :
    ∃ next, cancelLoad width state party = some next ∧ next.pc party ≠ .cancelLoad := by
  have top := width.updating_lt_locked
  have pos := width.updating_pos
  have encodes := described.encodes
  cases status with
  | updating party | held party ptr => cases free
  | unlocked => exact ⟨_, by rw [cancelLoad, if_pos (.inl encodes)], by simp⟩
  | locked => exact ⟨_, by rw [cancelLoad, if_pos (.inr encodes)], by simp⟩
  | queue ptr =>
    obtain ⟨queue, same⟩ := encodes
    have below := queue.below
    have present := queue.1
    refine ⟨_, by rw [cancelLoad, if_neg (by simp only [unlocked]; omega), if_neg (by omega), same,
      queue.untag, if_neg Bool.false_ne_true], by simp⟩

variable [Fintype ι]

/-- A spin loop is left when nobody edits the queue. -/
theorem advance_of_spins {allowed : State ι → Label ι → State ι → Prop}
    (reach : (machine ι width).ReachableBy allowed state)
    (spins : haltAt (state.pc party) = .spins) (described : Described width state status)
    (free : status.holder = none) :
    ∃ next, advance width state party = some next ∧ next.pc party ≠ state.pc party := by
  obtain ⟨_, owned⟩ := owned_of_reachable (reach.mono fun _ _ _ _ => trivial)
  cases source : state.pc party <;> rw [source] at spins
  case contendLock mode =>
    refine ⟨_, by rw [advance, source], ?_⟩
    unfold contendLock
    split
    · cases mode <;> simp [contendAcquired, acquired, completed]
    · rename_i locked
      simpa using contendNext_free described free locked
  case unlockReload =>
    refine ⟨_, by rw [advance, source], ?_⟩
    have moved := reloads_of_reachable reach party (by rw [source]; rfl)
    have locked := owned.locked_of_share source (by simp [shareAt, droppingAt])
    simpa using unlockNext_free described free moved locked
  case cancelLoad =>
    obtain ⟨next, stepped, left⟩ := cancelLoad_free party described free
    exact ⟨next, by rw [advance, source]; exact stepped, left⟩
  all_goals cases spins

theorem advance_of_awaits (described : Described width state status)
    (awaits : haltAt (state.pc party) = .awaits)
    (final : (state.signal party).value.isFinal = true) :
    ∃ next, advance width state party = some next := by
  cases source : state.pc party <;> rw [source] at awaits
  case cancelSpin =>
    have signaled : (state.signal party).value = .signaled := by
      by_contra different
      rw [fresh_of_ne_signaled described (by rw [source]; rfl) different] at final
      cases final
    simp [advance, source, cancelSpin, signaled]
  all_goals cases awaits

/-- **A call on the mutex stops only where it says.** -/
theorem halts (width : PointerWidth) (allowed : State ι → Label ι → State ι → Prop) :
    (halting ι width).Sound allowed where
  goes _ goes := step_of_goes goes
  spins {state party queue} reach spins shows free := by
    obtain ⟨status, described, rfl⟩ := shows
    obtain ⟨next, stepped, moved⟩ := advance_of_spins reach spins described free
    exact ⟨.advance, next, rfl, stepped, moved⟩
  awaits reach awaits final := by
    obtain ⟨status, described⟩ := described_of_reachable reach
    obtain ⟨next, stepped⟩ := advance_of_awaits described awaits final
    exact ⟨.advance, next, rfl, stepped⟩

end Halts

/-! ### The standstill -/

variable [Fintype ι] {width : PointerWidth} {state : State ι} {alarm : Alarm ι}

/-- The mutex and its sleepers, in all runs whose polls re-register as `Rearmed` asks: a poll that
registers its waker after the signaler's `take` finds the slot empty, or brings the waker that was
taken. -/
abbrev SleepingRuns (width : PointerWidth) (pair : State ι × Alarm ι) : Prop :=
  (sleeping ι width).machine.ReachableBy ((sleeping ι width).Permits fun _ _ _ => True) pair

/-- At a standstill every call has returned, a request is pending, or a thread is in `park`. -/
theorem rests_or_parks_of_standstill (reach : (machine ι width).Reachable state)
    (still : Standstill (halting ι width) (state, alarm)) (party : ι) :
    state.pc party = .idle ∨ state.pc party = .future ∨ state.pc party = .waitPark := by
  obtain ⟨_, ⟨status, described, rfl⟩, -, stopped⟩ :=
    (halts width _).halted (sound width _) reach still
  have halted : haltAt (state.pc party) ≠ .goes ∧ haltAt (state.pc party) ≠ .spins :=
    (stopped party).halted
  have found : haltAt (state.pc party) ≠ .awaits := fun awaits => by
    obtain ⟨-, linked, leaves⟩ := (stopped party).leaves awaits
    exact leaves ⟨status, described, linked⟩
  revert halted found
  cases state.pc party <;> simp [haltAt]

/-- The party waits for the lock: its node is in the published queue. -/
structure Queued (width : PointerWidth) (state : State ι) (party : ι) : Prop where
  unsignalled : (state.signal party).value.isFinal = false
  published : width.IsQueue state.word
  linked : party ∈ state.queues state.word

/-- The pending request was handed the lock, and was woken since its latest poll began. -/
structure Handed (state : State ι) (alarm : Alarm ι) (party : ι) : Prop where
  rests : state.pc party = .future
  signaled : (state.signal party).value = .signaled
  woken : alarm.woken party = true

/-- **How a party is left at a standstill**: in no call, with a request that is complete or fresh or
was handed the lock, or in the queue. -/
inductive Left (width : PointerWidth) (state : State ι) (alarm : Alarm ι) (party : ι) : Prop
  | idle (rests : state.pc party = .idle)
  | ended (rests : state.pc party = .future) (ended : valueWaits (state.signal party).value = false)
  | handed (handed : Handed state alarm party)
  | pending (rests : state.pc party = .future) (queued : Queued width state party)
  | parked (parked : state.pc party = .waitPark) (queued : Queued width state party)

/-- Whoever has a token at a standstill was handed the lock. -/
theorem Left.handed_of_share {party : ι} (left : Left width state alarm party)
    (holds : share state party ≠ 0) : Handed state alarm party := by
  cases left with
  | handed handed => exact handed
  | idle rests =>
    simp [share, rests, shareAt, droppingAt, poppedAt, signalledAt, waitsAt] at holds
  | ended rests ended =>
    simp [share, rests, shareAt, droppingAt, poppedAt, signalledAt, waitsAt, ended] at holds
  | pending rests queued | parked rests queued =>
    refine absurd ?_ holds
    have fresh : (state.signal party).value ≠ .signaled := fun signaled => by
      have unsignalled := queued.unsignalled
      rw [signaled] at unsignalled
      cases unsignalled
    simp [share, rests, shareAt, droppingAt, poppedAt, signalledAt, fresh]

/-- **At a standstill everybody who is blocked waits for a guard that nobody drops, or for a request
that was handed the lock and woken.** -/
theorem standstill_owned (reach : SleepingRuns width (state, alarm))
    (still : Standstill (halting ι width) (state, alarm)) :
    (∀ party, Left width state alarm party) ∧
      (state.word = unlocked ∨ state.guards = 1 ∨ ∃ party, Handed state alarm party) ∧
      ∀ party, Queued width state party → state.guards = 1 ∨ ∃ other, Handed state alarm other := by
  obtain ⟨queue, ⟨status, described, rfl⟩, free, stopped⟩ :=
    (halts width _).standstill (sound width _) reach still
  have inner : (machine ι width).ReachableBy (fun _ _ _ => True) state := core_reachable reach
  have free : status.holder = none := free
  have queued (party : ι) (given : waitsAt (state.pc party) (state.signal party).value = true)
      (unsignalled : (state.signal party).value.isFinal = false) : Queued width state party := by
    have linked : party ∈ status.entries state.queues := (stopped party).linked given unsignalled
    have encodes := described.encodes
    cases status with
    | unlocked | locked => cases linked
    | updating holder | held holder ptr => cases free
    | queue ptr =>
      obtain ⟨isQueue, same⟩ := encodes
      exact ⟨unsignalled, same ▸ isQueue, same ▸ linked⟩
  have left (party : ι) : Left width state alarm party := by
    have given := queued party
    rcases rests_or_parks_of_standstill inner still party with source | source | source
    · exact .idle source
    · have waiting : waitsAt (state.pc party) = valueWaits := by
        rw [source]
        rfl
      rw [waiting] at given
      cases waits : valueWaits (state.signal party).value with
      | false => exact .ended source waits
      | true =>
        cases final : (state.signal party).value.isFinal with
        | false => exact .pending source (given waits final)
        | true =>
          have given : waitsAt (state.pc party) (state.signal party).value = true := waiting ▸ waits
          have signaled := of_decide_eq_true (described.waiting.signalled party given final)
          have rests : nodeAt (state.pc party) = .rest := by
            rw [source]
            rfl
          exact .handed ⟨source, signaled, (stopped party).woken rests given final⟩
    · rw [source] at given
      have parks : haltAt (state.pc party) = .parks := by
        rw [source]
        rfl
      exact .parked source (given rfl ((stopped party).asleep parks))
  have owner (locked : state.word ≠ unlocked) : state.guards = 1 ∨
      ∃ party, Handed state alarm party := by
    obtain ⟨_, owned⟩ := owned_of_reachable inner
    have count := owned.tokens_eq_word
    rw [if_neg locked, tokens_eq] at count
    by_cases nobody : ∀ party, share state party = 0
    · left
      simpa [nobody] using count
    · obtain ⟨party, holds⟩ := not_forall.mp nobody
      exact .inr ⟨party, (left party).handed_of_share holds⟩
  refine ⟨left, ?_, fun party queued => ?_⟩
  · by_cases locked : state.word = unlocked
    · exact .inl locked
    · exact .inr (owner locked)
  · exact owner queued.published.1

/-- `a` has the lock, the request of `b` and the thread `c` queue, and `a` drops its guard: `b` is
handed the lock and woken, `c` stays parked. -/
def handsToFirst {ι : Type} (a b c : ι) : List (Sleeping.Label ι Move) :=
  List.flatten [[.move (a, .tryLock), .move (a, .advance), .move (b, .create), .move (b, .poll 5)],
    List.replicate 2 (.move (b, .advance)), [.move (b, .allocate 8)],
    List.replicate 2 (.move (b, .advance)), [.move (c, .lock)],
    List.replicate 6 (.move (c, .advance)), [.move (a, .dropGuard)],
    List.replicate 6 (.move (a, .advance)), [.wake a]]

/-- The standstill after the hand-over. -/
theorem standstill_owned_handed : ∃ pair : State (Fin 3) × Alarm (Fin 3),
    SleepingRuns .bits64 pair ∧
    pair.1.pc 2 = .waitPark ∧ pair.1.guards = 0 ∧ Left .bits64 pair.1 pair.2 2 ∧
      ∃ party, Handed pair.1 pair.2 party := by
  have initial : (sleeping (Fin 3) .bits64).machine.init (start fun _ => [], .new) :=
    ⟨⟨_, rfl⟩, rfl⟩
  obtain ⟨⟨state, alarm⟩, reach, ended⟩ := (sleeping (Fin 3) .bits64).exists_reachable_of_run
    (fun _ _ _ => true)
    (fun pair => decide (pair.1.pc 2 = .waitPark ∧ pair.1.guards = 0 ∧ pair.1.word ≠ unlocked ∧
      (∀ party, haltAt (pair.1.pc party) ≠ .goes) ∧
      ∀ party, (sleeping (Fin 3) .bits64).stopped pair party = true))
    initial (handsToFirst 0 1 2) (by decide +kernel)
  obtain ⟨parks, unguarded, locked, halted, stopped⟩ := of_decide_eq_true ended
  have reach : SleepingRuns .bits64 (state, alarm) := by simpa only using reach
  have still : Standstill (halting (Fin 3) .bits64) (state, alarm) := by
    refine standstill_of_stopped (fun party move internal => ?_) stopped
    cases move with
    | advance => exact .inl rfl
    | allocate ptr =>
      refine .inr ?_
      have stops := halted party
      show step .bits64 state (party, .allocate ptr) = none
      revert stops
      cases source : state.pc party <;> simp [haltAt, step, begin, source]
    | tryLock | lock | create | poll _ | drop | dropGuard => cases internal
  obtain ⟨left, owner, -⟩ := standstill_owned reach still
  have unguarded : state.guards ≠ 1 := by
    rw [show state.guards = 0 from unguarded]
    exact Nat.zero_ne_one
  exact ⟨(state, alarm), reach, parks, ‹_›, left 2,
    (owner.resolve_left locked).resolve_left unguarded⟩

end Xutex.Mutex
