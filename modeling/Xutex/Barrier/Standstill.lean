/-
**The barrier at a standstill.**

When no call on the barrier goes on, everybody who is blocked has arrived in the round that is still
forming, and that round lacks somebody: the linked nodes are the arrivals that the word counts, and
they are fewer than `n`. Everybody whose round is over has returned, or is a future that was woken
since its latest poll.

* `halting` — where the calls of the barrier can stop.
* `SleepingRuns` — the runs in which a leader that drains finds a node of its generation in front,
  or none, no generation comes round again while somebody waits, and no rearm replaces a waker that
  the signaler has taken.
* `standstill_incomplete` — **the standstill of the barrier**, in the runs of `SleepingRuns`.
-/

import Xutex.Barrier.Sleepers
import Xutex.Core.Standstill

set_option linter.unusedSectionVars false

namespace Xutex.Barrier

open Concurrency Discipline Sleeping

variable {ι : Type} [DecidableEq ι]

/-! ### Where a call can stop -/

def haltAt : Pc ι → Halt
  | .idle | .future => .rests
  | .releaseLock _ _ | .enqueueLock _ _ | .removeLock => .spins
  | .dropSpin => .awaits
  | .waitPark => .parks
  | _ => .goes

/-- **The ends of the barrier's steps.** -/
def halting (ι : Type) [DecidableEq ι] (half n : ℕ) : Halting (sleeping ι half n) where
  halt := haltAt
  internal move := decide (move = .advance)
  advanceInternal := rfl
  lockedGoes {pc} locked := by
    cases pc <;> first | rfl | cases locked
  signalerGoes {pc} busy := by
    cases pc <;> first | rfl | exact absurd rfl busy
  parkedParks {pc} := by
    refine ⟨fun parked => ?_, fun parks => ?_⟩
    · rw [show pc = .waitPark from eq_waitPark parked]
      rfl
    · cases pc <;> first | rfl | cases parks
  awaitsGone {pc} awaits := by
    cases pc <;> first | rfl | cases awaits

section Halts

variable {half n : ℕ} {state : State ι} {party : ι}

theorem advance_of_goes (goes : haltAt (state.pc party) = .goes) :
    ∃ next, advance half n state party = some next := by
  cases source : state.pc party <;> rw [source] at goes <;> first
    | simp only [advance, source, Option.some.injEq, exists_eq']; done
    | cases goes

/-- The tag-lock is free: `WaitQueue::lock` succeeds, or there is no queue. -/
theorem advance_of_spins (spins : haltAt (state.pc party) = .spins)
    (free : state.queue.holder = none) :
    ∃ next, advance half n state party = some next ∧ next.pc party ≠ state.pc party := by
  cases source : state.pc party <;> rw [source] at spins
  case enqueueLock mode expected =>
    rcases WaitQueue.lock_of_free free party true with ⟨-, wrong⟩ | ⟨locked, result⟩
    · cases wrong
    · simp [advance, source, enqueueLock, result]
  case releaseLock mode expected =>
    rcases WaitQueue.lock_of_free free party false with ⟨result, -⟩ | ⟨locked, result⟩
    · cases mode <;> simp [advance, source, releaseLock, releaseReturn, result]
    · simp [advance, source, releaseLock, result]
  case removeLock =>
    rcases WaitQueue.lock_of_free free party false with ⟨result, -⟩ | ⟨locked, result⟩
    all_goals simp [advance, source, removeLock, result]
  all_goals cases spins

theorem advance_of_awaits (waiting : Waiting state) (awaits : haltAt (state.pc party) = .awaits)
    (final : (state.signal party).value.isFinal = true) :
    ∃ next, advance half n state party = some next := by
  cases source : state.pc party <;> rw [source] at awaits
  case dropSpin =>
    have reaches : (state.signal party).value.reachesAll = true := by
      by_contra short
      rw [fresh_of_not_reachesAll waiting (by rw [source]; rfl) short] at final
      cases final
    simp [advance, source, dropSpin, reaches]
  all_goals cases awaits

/-- **A call on the barrier stops only where it says.** -/
theorem halts (half n : ℕ) (allowed : State ι → Label ι → State ι → Prop) :
    (halting ι half n).Sound allowed where
  goes _ goes := by
    obtain ⟨next, stepped⟩ := advance_of_goes goes
    exact ⟨.advance, next, rfl, stepped⟩
  spins {state party queue} _ spins shows free := by
    obtain rfl : queue = state.queue := shows
    obtain ⟨next, stepped, moved⟩ := advance_of_spins spins free
    exact ⟨.advance, next, rfl, stepped, moved⟩
  awaits reach awaits final := by
    obtain ⟨next, stepped⟩ := advance_of_awaits (waiting_of_reachable reach) awaits final
    exact ⟨.advance, next, rfl, stepped⟩

end Halts

/-! ### The standstill -/

variable [Fintype ι] {half n : ℕ} {state : State ι} {alarm : Alarm ι}

/-- The barrier and its sleepers, in the orderly runs whose polls re-register as `Rearmed` asks: a
poll that registers its waker after the signaler's `take` finds the slot empty, or brings the waker
that was taken. -/
abbrev SleepingRuns (half n : ℕ) (pair : State ι × Alarm ι) : Prop :=
  (sleeping ι half n).machine.ReachableBy
    ((sleeping ι half n).Permits fun state label next => drainsOwn state label = true ∧
    NoWrap half next) pair

/-- The party has arrived in the round that is still forming, and waits for the others. -/
structure Early (state : State ι) (party : ι) : Prop where
  unsignalled : (state.signal party).value.isFinal = false
  linked : party ∈ state.queue.entries
  current : state.round party = state.rounds

/-- **How a party is left at a standstill**: in no call, with a future that is complete or fresh or
was woken, or waiting for others to arrive. -/
inductive Left (state : State ι) (alarm : Alarm ι) (party : ι) : Prop
  | idle (rests : state.pc party = .idle)
  | ended (rests : state.pc party = .future) (ended : valueWaits (state.signal party).value = false)
  | woken (rests : state.pc party = .future) (signalled : (state.signal party).value.isFinal = true)
      (passed : state.round party < state.rounds) (woken : alarm.woken party = true)
  | pending (rests : state.pc party = .future) (early : Early state party)
  | parked (parked : state.pc party = .waitPark) (early : Early state party)

/-- The counted arrivals of the current round, when they are the linked nodes. -/
theorem arrivals_eq_length (distinct : state.queue.entries.Nodup)
    (shares : ∀ party, share state party = if party ∈ state.queue.entries then 1 else 0) :
    arrivals state = state.queue.entries.length := by
  calc arrivals state = ∑ party, if party ∈ state.queue.entries.toFinset then 1 else 0 :=
        Finset.sum_congr rfl fun party _ => by rw [shares party]; simp only [List.mem_toFinset]
    _ = state.queue.entries.toFinset.card := by
        rw [Finset.sum_ite_mem, Finset.univ_inter, Finset.card_eq_sum_ones]
    _ = state.queue.entries.length := List.toFinset_card_of_nodup distinct

/-- **At a standstill everybody who is blocked waits for a round that lacks somebody.** -/
theorem standstill_incomplete (reach : SleepingRuns half n (state, alarm))
    (still : Standstill (halting ι half n) (state, alarm)) :
    state.queue.holder = none ∧ (∀ party, Left state alarm party) ∧
      state.queue.entries.length = arrived half state.word ∧
        state.queue.entries.length < coreSize n := by
  obtain ⟨queue, shows, free, left⟩ := (halts half n _).standstill (sound fun _ _ _ => And.right)
    reach still
  obtain rfl : queue = state.queue := shows
  have inner : OrderlyRuns half n state := core_reachable reach
  have waiting := waiting_of_reachable inner
  obtain ⟨inv, -⟩ := rounds_of_reachable inner
  have halted (party : ι) : haltAt (state.pc party) ≠ .goes ∧ haltAt (state.pc party) ≠ .spins :=
    (left party).halted
  have current (party : ι) (linked : party ∈ state.queue.entries) :
      state.round party = state.rounds := by
    rcases inv.queue.covered trivial party linked with current | ⟨leader, leads, -⟩
    · exact current
    · -- a leader that has not drained the queue would go on
      have stopped := halted leader
      revert leads stopped
      cases state.pc leader <;> simp [leadsAt, haltAt]
  have rests (party : ι) : Resting (state.pc party) = true := by
    have stopped := halted party
    have found : haltAt (state.pc party) ≠ .awaits := fun awaits => by
      obtain ⟨-, linked, leaves⟩ := (left party).leaves awaits
      exact leaves ⟨linked, current party linked⟩
    revert stopped found
    cases state.pc party <;> simp [haltAt, Resting]
  have early (party : ι) (given : waitsAt (state.pc party) (state.signal party).value = true)
      (unsignalled : (state.signal party).value.isFinal = false) : Early state party :=
    ⟨unsignalled, (left party).linked given unsignalled,
      current party ((left party).linked given unsignalled)⟩
  refine ⟨free, fun party => ?_, ?_⟩
  · have resting := rests party
    have asleep : haltAt (state.pc party) = .parks → (state.signal party).value.isFinal = false :=
      (left party).asleep
    have woken : roleAt (state.pc party) = .rest →
        waitsAt (state.pc party) (state.signal party).value = true →
      (state.signal party).value.isFinal = true → alarm.woken party = true := (left party).woken
    have passed (given : waitsAt (state.pc party) (state.signal party).value = true) :=
      inv.signalled_over waiting given
    have given := early party
    cases source : state.pc party <;> rw [source] at resting asleep woken given passed
    case idle => exact .idle source
    case future =>
      cases waits : valueWaits (state.signal party).value with
      | false => exact .ended source waits
      | true =>
        cases final : (state.signal party).value.isFinal with
        | false => exact .pending source (given waits final)
        | true => exact .woken source final (passed waits final) (woken rfl waits final)
    case waitPark => exact .parked source (given rfl (asleep rfl))
    all_goals cases resting
  · have shares (party : ι) : share state party = if party ∈ state.queue.entries then 1 else 0 := by
      have counts : countsAt (state.pc party) (state.value party) = waitsAt (state.pc party)
          (state.value party) := by
        have resting := rests party
        revert resting
        cases state.pc party <;> simp [Resting, countsAt]
      split
      · rename_i linked
        exact share_eq_one (counts.trans (waiting.queued linked).1) (current party linked)
      · rename_i unlinked
        exact share_eq_zero fun counted =>
          (inv.queue.popped party (counts.symm.trans counted) unlinked).ne
    have total := arrivals_eq_length waiting.placed.queue_nodup shares
    rw [inv.count.word, arrived_packed (inv.fits (fits_of_reachable inner)), ← total]
    exact ⟨rfl, inv.count.below⟩

/-- A barrier of three: the future `a` and the thread `b` arrive, `c` leads and releases them, and
the future `d` arrives in the next round. -/
def roundAndOne {ι : Type} (a b c d : ι) : List (Sleeping.Label ι Move) :=
  List.flatten [[.move (a, .create), .move (a, .poll 5)], List.replicate 6 (.move (a, .advance)),
    [.move (b, .wait)], List.replicate 7 (.move (b, .advance)), [.move (c, .wait)],
    List.replicate 7 (.move (c, .advance)), [.wake c], List.replicate 2 (.move (c, .advance)),
    [.wake c, .unpark b, .move (b, .advance)], [.move (d, .create), .move (d, .poll 6)],
    List.replicate 6 (.move (d, .advance))]

/-- The standstill after a round and one arrival. -/
theorem standstill_incomplete_next : ∃ pair : State (Fin 4) × Alarm (Fin 4),
    SleepingRuns 32 3 pair ∧
    pair.2.woken 0 = true ∧ pair.1.pc 1 = .idle ∧ pair.1.queue.entries = [3] ∧
    pair.1.queue.entries.length = arrived 32 pair.1.word := by
  have initial : (sleeping (Fin 4) 32 3).machine.init (start (Fin 4), .new) :=
    ⟨⟨by decide, rfl⟩, rfl⟩
  obtain ⟨⟨state, alarm⟩, reach, ended⟩ := (sleeping (Fin 4) 32 3).exists_reachable_of_run
    (fun state label next => decide (drainsOwn state label = true ∧ NoWrap 32 next))
    (fun pair => decide (pair.2.woken 0 = true ∧ pair.1.pc 1 = .idle ∧ pair.1.queue.entries = [3] ∧
      ∀ party, (sleeping (Fin 4) 32 3).stopped pair party = true)) initial (roundAndOne 0 1 2 3)
      (by decide +kernel)
  obtain ⟨woken, returned, linked, stopped⟩ := of_decide_eq_true ended
  have reach : SleepingRuns 32 3 (state, alarm) := by simpa only [decide_eq_true_eq] using reach
  have still : Standstill (halting (Fin 4) 32 3) (state, alarm) :=
    standstill_of_stopped (fun _ _ internal => .inl (of_decide_eq_true internal)) stopped
  exact ⟨(state, alarm), reach, woken, returned, linked, (standstill_incomplete reach still).2.2.1⟩

end Xutex.Barrier
