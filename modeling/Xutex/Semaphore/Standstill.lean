/-
**The semaphore at a standstill.**

When no call on the semaphore goes on, whoever is blocked is linked, and waits for the front of the
queue, which misses more permits than the pool has. A closed semaphore blocks nobody: everybody who
was linked has been signalled, and every future among them was woken.

* `halting` — where the calls of the semaphore can stop.
* `SleepingRuns` — the runs with requests and created permits up to `MAX_PERMITS` in which no rearm
  replaces a waker that the signaler has taken. A rearm that does can cost a future its wake-up.
* `standstill_short` — **the standstill of the semaphore**, in the runs of `SleepingRuns`.
-/

import Xutex.Core.Standstill
import Xutex.Semaphore.Closing
import Xutex.Semaphore.Sleepers
import Xutex.Semaphore.Stranded

set_option linter.unusedSectionVars false

namespace Xutex.Semaphore

open Concurrency Discipline Sleeping

variable {ι γ : Type} [DecidableEq ι] [DecidableEq γ]

/-! ### Where a call can stop -/

def haltAt : Pc ι γ → Halt
  | .idle | .future => .rests
  | .drainLock _ | .enqueueLock _ | .cancelLock | .closeLock => .spins
  | .cancelWait => .awaits
  | .syncPark => .parks
  | _ => .goes

def Move.isAdvance : Move γ → Bool
  | .advance => true
  | _ => false

/-- **The ends of the semaphore's steps.** -/
def halting (ι γ : Type) [DecidableEq ι] [DecidableEq γ] (width : PointerWidth) (n : ℕ) :
    Halting (sleeping ι γ width n) where
  halt := haltAt
  internal := Move.isAdvance
  advanceInternal := rfl
  lockedGoes {pc} locked := by
    cases pc <;> first | rfl | cases locked
  signalerGoes {pc} busy := by
    cases pc <;> first | rfl | exact absurd rfl busy
  parkedParks {pc} := by
    refine ⟨fun parked => ?_, fun parks => ?_⟩
    · rw [show pc = .syncPark from eq_syncPark parked]
      rfl
    · cases pc <;> first | rfl | cases parks
  awaitsGone {pc} awaits := by
    cases pc <;> first | rfl | cases awaits

section Halts

variable {width : PointerWidth} {n : ℕ} {state : State ι γ} {party : ι}

theorem advance_of_goes (goes : haltAt (state.pc party) = .goes) :
    ∃ next, advance width state party = some next := by
  cases source : state.pc party <;> rw [source] at goes <;> first
    | simp only [advance, source, Option.some.injEq, exists_eq']; done
    | cases goes

theorem finish_left {after : After γ} (spins : haltAt (state.pc party) = .spins) :
    (finish state party after).pc party ≠ state.pc party := by
  intro same
  have left : (finish state party after).pc party = finishPc after := by
    cases after <;> exact Function.update_self _ _ _
  rw [← same, left] at spins
  cases after <;> cases spins

/-- The tag-lock is free: `WaitQueue::lock` succeeds, or there is no queue. -/
theorem advance_of_spins (spins : haltAt (state.pc party) = .spins)
    (free : state.queue.holder = none) :
    ∃ next, advance width state party = some next ∧ next.pc party ≠ state.pc party := by
  have left {after : After γ} : (finish state party after).pc party ≠ state.pc party :=
    finish_left spins
  cases source : state.pc party <;> rw [source] at spins left
  case enqueueLock mode =>
    rcases WaitQueue.lock_of_free free party true with ⟨-, wrong⟩ | ⟨locked, result⟩
    · cases wrong
    · simp [advance, source, enqueueLock, result]
  case drainLock | cancelLock | closeLock =>
    rcases WaitQueue.lock_of_free free party false with ⟨result, -⟩ | ⟨locked, result⟩
    all_goals simp [advance, source, drainLock, cancelLock, closeLock, result, left]
  all_goals cases spins

theorem advance_of_awaits (awaits : haltAt (state.pc party) = .awaits)
    (final : (state.signal party).value.isFinal = true) :
    ∃ next, advance width state party = some next := by
  cases source : state.pc party <;> rw [source] at awaits
  case cancelWait => simp [advance, source, cancelWait, final]
  all_goals cases awaits

/-- **A call on the semaphore stops only where it says.** -/
theorem halts (width : PointerWidth) (n : ℕ) (allowed : State ι γ → Label ι γ → State ι γ → Prop) :
    (halting ι γ width n).Sound allowed where
  goes _ goes := by
    obtain ⟨next, stepped⟩ := advance_of_goes goes
    exact ⟨.advance, next, rfl, stepped⟩
  spins {state party queue} _ spins shows free := by
    obtain rfl : queue = state.queue := shows
    obtain ⟨next, stepped, moved⟩ := advance_of_spins spins free
    exact ⟨.advance, next, rfl, stepped, moved⟩
  awaits _ awaits final := by
    obtain ⟨next, stepped⟩ := advance_of_awaits awaits final
    exact ⟨.advance, next, rfl, stepped⟩

end Halts

/-! ### The standstill -/

variable [Fintype ι] {width : PointerWidth} {n : ℕ} {state : State ι γ} {alarm : Alarm ι}

/-- The semaphore and its sleepers, in the modest runs whose polls re-register as `Rearmed` asks: a
poll that registers its waker after the signaler's `take` finds the slot empty, or brings the waker
that was taken. -/
abbrev SleepingRuns (width : PointerWidth) (n : ℕ) (pair : State ι γ × Alarm ι) : Prop :=
  (sleeping ι γ width n).machine.ReachableBy
    ((sleeping ι γ width n).Permits fun _ label next => modest width label next = true) pair

/-- The party is linked, and was not signalled. -/
structure Unserved (state : State ι γ) (party : ι) : Prop where
  unsignalled : (state.signal party).value.isFinal = false
  linked : party ∈ state.queue.entries

/-- **How a party is left at a standstill**: in no call, with a future that is complete or fresh or
was woken, or in the queue. -/
inductive Left (state : State ι γ) (alarm : Alarm ι) (party : ι) : Prop
  | idle (rests : state.pc party = .idle)
  | ended (rests : state.pc party = .future) (ended : valueWaits (state.signal party).value = false)
  | woken (rests : state.pc party = .future)
      (signalled : (state.signal party).value = .signaled ∨ (state.signal party).value = .closed)
      (woken : alarm.woken party = true)
  | pending (rests : state.pc party = .future) (unserved : Unserved state party)
  | parked (parked : state.pc party = .syncPark) (unserved : Unserved state party)

/-- **At a standstill nobody runs a call**, and whoever is blocked is linked. -/
theorem left_of_standstill (reach : SleepingRuns width n (state, alarm))
    (still : Standstill (halting ι γ width n) (state, alarm)) :
    state.queue.holder = none ∧ (∀ party, Left state alarm party) ∧ Quiet state := by
  have waits {state : State ι γ} (reach : ModestRuns width n state) :
      Waiting state := (ledger_of_reachable reach).1.waiting
  have fits {state : State ι γ} {label : Label ι γ} (reach : ModestRuns width n state) :
      bounded width state label = true :=
    (ledger_of_reachable reach).1.bounded label
  obtain ⟨queue, shows, free, left⟩ :=
    (halts width n _).standstill (sound (fun reach => waits reach) fun reach _ => fits reach)
      reach still
  obtain rfl : queue = state.queue := shows
  have waiting := waits (core_reachable reach)
  have rests (party : ι) : restsAt (state.pc party) = true ∧ haltAt (state.pc party) ≠ .goes := by
    have halted : haltAt (state.pc party) ≠ .goes ∧ haltAt (state.pc party) ≠ .spins :=
      (left party).halted
    have found : haltAt (state.pc party) ≠ .awaits := fun awaits =>
      ((left party).leaves awaits).2.2 ((left party).leaves awaits).2.1
    refine ⟨?_, halted.1⟩
    revert halted found
    cases state.pc party <;> simp [haltAt, restsAt]
  refine ⟨free, fun party => ?_, fun party => (rests party).1⟩
  obtain ⟨resting, stopped⟩ := rests party
  have asleep : haltAt (state.pc party) = .parks → (state.signal party).value.isFinal = false :=
    (left party).asleep
  have woken : nodeAt (state.pc party) = .rest →
      waitsAt (state.pc party) (state.signal party).value = true →
    (state.signal party).value.isFinal = true → alarm.woken party = true := (left party).woken
  have linked : waitsAt (state.pc party) (state.signal party).value = true →
    (state.signal party).value.isFinal = false → party ∈ state.queue.entries := (left party).linked
  have kind : waitsAt (state.pc party) (state.signal party).value = true →
      (state.signal party).value.isFinal = true →
      (state.signal party).value = .signaled ∨ (state.signal party).value = .closed :=
    fun given final => of_decide_eq_true (waiting.signalled party given final)
  cases source : state.pc party <;> rw [source] at resting stopped asleep woken linked kind
  case idle => exact .idle source
  case future =>
    cases waits : valueWaits (state.signal party).value with
    | false => exact .ended source waits
    | true =>
      cases final : (state.signal party).value.isFinal with
      | false => exact .pending source ⟨final, linked waits final⟩
      | true => exact .woken source (kind waits final) (woken rfl waits final)
  case syncPark => exact .parked source ⟨asleep rfl, linked rfl (asleep rfl)⟩
  all_goals first | cases resting; done | exact absurd rfl stopped

/-- While nobody runs a call, a front node is there because the pool is short of what it misses. -/
theorem short_of_quiet (inner : ModestRuns width n state) (quiet : Quiet state) {front : ι}
    {rest : List ι} (linked : state.queue.entries = front :: rest) :
    isClosed state.pool = false ∧ permits state.pool < (state.signal front).aux ∧
      ∀ node ∈ rest, (state.signal node).aux = state.requested node := by
  have serviced := serviced_of_reachable inner
  refine ⟨?_, ?_, fun node member => serviced.tail node (by rw [linked]; exact member)⟩
  · by_contra closed
    rcases (sealed_of_reachable inner).shut (Bool.not_eq_false _ ▸ closed) with ⟨closer, drains⟩
      | ⟨empty, -⟩
    · -- a closer that has not emptied the queue would go on
      have resting := quiet closer
      rcases drainsAt_cases drains with source | source <;> rw [source] at resting <;> cases resting
    · rw [linked] at empty
      cases empty
  · rcases serviced.head front rest linked with misses | ⟨party, busy⟩ | ⟨party, busy⟩
    · exact misses
    · have resting := quiet party
      revert resting busy
      cases state.pc party <;> simp [restsAt, dutyAt]
    · have resting := quiet party
      revert resting busy
      cases state.pc party <;> simp [restsAt, servingAt]

/-- **At a standstill everybody who is blocked waits behind a front that the pool cannot serve**,
and the semaphore is open. -/
theorem standstill_short (reach : SleepingRuns width n (state, alarm))
    (still : Standstill (halting ι γ width n) (state, alarm)) :
    state.queue.holder = none ∧ (∀ party, Left state alarm party) ∧
      ∀ front rest, state.queue.entries = front :: rest →
        isClosed state.pool = false ∧ permits state.pool < (state.signal front).aux ∧
          ∀ node ∈ rest, (state.signal node).aux = state.requested node := by
  obtain ⟨free, left, quiet⟩ := left_of_standstill reach still
  exact ⟨free, left, fun front rest linked => short_of_quiet (core_reachable reach) quiet linked⟩

/-- `a` has all three permits; the futures `b` and `c`, which ask for one and for three, and the
thread `d` queue. `a` drops two: `b` is served and woken, `c` is served in part. -/
def servesFirst {ι : Type} (a b c d : ι) : List (Sleeping.Label ι (Move Unit)) :=
  List.flatten [[.move (a, .tryAcquire ⟨(), 3⟩)], List.replicate 2 (.move (a, .advance)),
    [.move (b, .create ⟨(), 1⟩), .move (b, .poll 5)], List.replicate 6 (.move (b, .advance)),
    [.move (c, .create ⟨(), 3⟩), .move (c, .poll 6)], List.replicate 6 (.move (c, .advance)),
    [.move (d, .acquire ⟨(), 1⟩)], List.replicate 7 (.move (d, .advance)),
    [.move (a, .split ⟨(), 3⟩ 2), .move (a, .dropPermit ⟨(), 2⟩)],
    List.replicate 8 (.move (a, .advance)), [.wake a]]

/-- The standstill after the drain. -/
theorem standstill_short_served : ∃ pair : State (Fin 4) Unit × Alarm (Fin 4),
    SleepingRuns .bits64 3 pair ∧
    pair.2.woken 1 = true ∧ pair.1.queue.entries = [2, 3] ∧ pair.1.pc 3 = .syncPark ∧
    permits pair.1.pool < (pair.1.signal 2).aux := by
  have initial : (sleeping (Fin 4) Unit .bits64 3).machine.init (start 3 (), .new) :=
    ⟨⟨by decide, (), rfl⟩, rfl⟩
  obtain ⟨⟨state, alarm⟩, reach, ended⟩ := (sleeping (Fin 4) Unit .bits64 3).exists_reachable_of_run
    (fun _ label next => modest .bits64 label next)
    (fun pair => decide (pair.2.woken 1 = true ∧ pair.1.queue.entries = [2, 3] ∧
      pair.1.pc 3 = .syncPark ∧
      ∀ party, (sleeping (Fin 4) Unit .bits64 3).stopped pair party = true)) initial
      (servesFirst 0 1 2 3)
    (by decide +kernel)
  obtain ⟨woken, linked, parks, stopped⟩ := of_decide_eq_true ended
  have only (move : Move Unit) (internal : move.isAdvance = true) : move = .advance := by
    cases move <;> first | rfl | cases internal
  have still : Standstill (halting (Fin 4) Unit .bits64 3) (state, alarm) :=
    standstill_of_stopped (fun _ move internal => .inl (only move internal)) stopped
  exact ⟨(state, alarm), reach, woken, linked, parks,
    ((standstill_short reach still).2.2 2 [3] linked).2.1⟩

end Xutex.Semaphore
