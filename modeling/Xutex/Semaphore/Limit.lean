/-
**`MAX_PERMITS`.**

`release` adds first and asserts then, on the word it has found; what live permits, waiters and
running drains hold is in no word that it reads.

* `releaseNow` — `release` up to its hand-over to waiters. `release_atomic_iff` — **it is atomic
  exactly when the sum fits, or when nothing of the argument is left after the shift**;
  `release_not_atomic` are the two ways in which it fails.
* `WithinLimit` — no sum of the next step exceeds the limit. `within_limit` — **it does not in every
  run whose live permits and requests are at most the limit**; `limit_exceeded` is a run in which
  every `add_permits` returned, and the drop of a permit panics.
-/

import Xutex.Concurrency.Observers
import Xutex.Semaphore.Conservation

set_option linter.unusedSectionVars false

namespace Xutex.Semaphore

open Concurrency
open scoped BigOperators

variable {ι γ : Type} [DecidableEq ι] [DecidableEq γ]

/-! ### One call -/

section Release

/-- The calls of a party so far are not asked for their reports. -/
def State.unreported (state : State ι γ) (party : ι) : State ι γ :=
  { state with outcome := Function.update state.outcome party none }

/-- **`release` up to its hand-over to waiters**: the call and, unless it is over, its `fetch_add`
with the assertion. -/
def releaseNow (width : PointerWidth) (state : State ι γ) (party : ι) (n : ℕ) (after : After γ) :
    State ι γ :=
  let called := release (state.unreported party) party n after
  match called.pc party with
  | .releaseAdd n after => releaseAdd width called party n after
  | _ => called

/-- The call has panicked. -/
def Panicked (state : State ι γ) (party : ι) : Prop := state.outcome party = some .releaseTooLarge

/-- **Atomic on error**: it returns exactly when the sum is within the limit, with that sum in the
pool and the flags as they were, and otherwise panics and leaves the pool and the queue alone. -/
structure Atomic (width : PointerWidth) (state next : State ι γ) (party : ι) (n : ℕ) : Prop where
  decides : ¬Panicked next party ↔ permits state.pool + n ≤ maxPermits width
  adds : ¬Panicked next party → permits next.pool = permits state.pool + n ∧
    isClosed next.pool = isClosed state.pool ∧ hasQueue next.pool = hasQueue state.pool
  undoes : Panicked next party → next.pool = state.pool ∧ next.queue = state.queue

variable {width : PointerWidth} {state : State ι γ} {party : ι} {n : ℕ} {after : After γ}

theorem finish_unpanicked (unreported : state.outcome party = none) :
    ¬Panicked (finish state party after) party := by
  cases after <;> simp [Panicked, finish, unreported]

/-- What the `fetch_add` leaves in the pool, and when it panics. -/
theorem releaseAdd_result (unreported : state.outcome party = none) :
    (releaseAdd width state party n after).pool = addPermits width state.pool n ∧
      (releaseAdd width state party n after).queue = state.queue ∧
      (Panicked (releaseAdd width state party n after) party ↔
        releaseFits width state.pool n = false) := by
  unfold releaseAdd
  split
  · rename_i fits
    refine ⟨?_, ?_, ?_⟩
    · split
      · rfl
      · cases after <;> rfl
    · split
      · rfl
      · cases after <;> rfl
    · simp only [fits, reduceCtorEq, iff_false]
      split
      · simp [Panicked, unreported]
      · exact finish_unpanicked unreported
  · rename_i large
    refine ⟨?_, ?_, ?_⟩
    · cases after <;> rfl
    · cases after <;> rfl
    · simp only [Bool.eq_false_iff.mpr large, iff_true]
      cases after <;> simp [Panicked, releasePanic]

/-- The pool and the queue after the call, and when it panics: with nothing to add it does
nothing. -/
theorem releaseNow_result (width : PointerWidth) (state : State ι γ) (party : ι) (n : ℕ)
    (after : After γ) :
    (releaseNow width state party n after).pool =
    (if n = 0 then state.pool else addPermits width state.pool n) ∧
      (releaseNow width state party n after).queue = state.queue ∧
      (Panicked (releaseNow width state party n after) party ↔ n ≠ 0 ∧
        releaseFits width state.pool n = false) := by
  have unreported : (state.unreported party).outcome party = none := Function.update_self ..
  unfold releaseNow
  by_cases nothing : n = 0
  · subst nothing
    have finished : release (state.unreported party) party 0 after = finish (state.unreported party)
        party after := if_pos rfl
    simp only [finished, ne_eq, not_true, false_and, iff_false, if_true]
    cases after <;> simp [finish, State.unreported, Panicked]
  · have called : release (state.unreported party) party n after =
        (state.unreported party).goto party (.releaseAdd n after) := if_neg nothing
    simp only [called, State.goto, Function.update_self, ne_eq, nothing, not_false_eq_true,
      true_and]
    exact releaseAdd_result unreported

theorem maxPermits_eq (width : PointerWidth) : maxPermits width + 1 = 2 ^ (width.bits - 3) := by
  cases width <;> decide

/-- Nothing is left of an argument after the shift exactly when its high bits are all it has. -/
theorem addPermits_same {word : ℕ} (bound : permits word ≤ maxPermits width) :
    addPermits width word n = word ↔ 2 ^ (width.bits - 2) ∣ n := by
  have limit := maxPermits_lt width
  have small : word < 2 ^ width.bits := by
    rw [permits_eq] at bound
    omega
  rw [addPermits, Nat.shiftLeft_eq]
  cases width <;> simp only [PointerWidth.bits] at small ⊢ <;> omega

/-- A multiple of so much is over the limit, and the sum does not wrap around. -/
theorem releaseFits_multiple {word : ℕ} (bound : permits word ≤ maxPermits width)
    (small : n < 2 ^ width.bits) (some : n ≠ 0) (multiple : 2 ^ (width.bits - 2) ∣ n) :
    maxPermits width < permits word + n ∧ releaseFits width word n = false := by
  have limit := maxPermits_eq width
  rw [releaseFits, decide_eq_false_iff_not]
  cases width <;> simp only [PointerWidth.bits] at small multiple limit ⊢ <;> omega

/-- **When `release` is atomic.** The pool has at most `MAX_PERMITS` permits and any flags, the
argument is a word. -/
theorem release_atomic_iff (bound : permits state.pool ≤ maxPermits width)
    (small : n < 2 ^ width.bits) :
    Atomic width state (releaseNow width state party n after) party n ↔
      permits state.pool + n ≤ maxPermits width ∨ 2 ^ (width.bits - 2) ∣ n := by
  obtain ⟨pool, queue, panics⟩ := releaseNow_result width state party n after
  constructor
  · intro atomic
    by_cases fits : permits state.pool + n ≤ maxPermits width
    · exact .inl fits
    · have panicked := not_not.mp (mt atomic.decides.mp fits)
      have same := (atomic.undoes panicked).1
      rw [pool, if_neg (panics.mp panicked).1] at same
      exact .inr ((addPermits_same bound).mp same)
  · rintro (fits | multiple)
    · have quiet : ¬Panicked (releaseNow width state party n after) party := fun panicked => by
        have large := (panics.mp panicked).2
        rw [releaseFits_of_le fits] at large
        cases large
      refine ⟨iff_of_true quiet fits, fun _ => ?_, fun panicked => absurd panicked quiet⟩
      rw [pool]
      split
      · rename_i nothing
        exact ⟨by rw [nothing, Nat.add_zero], rfl, rfl⟩
      · exact ⟨addPermits_permits fits, addPermits_isClosed, addPermits_hasQueue⟩
    · by_cases nothing : n = 0
      · have quiet : ¬Panicked (releaseNow width state party n after) party := fun panicked =>
          (panics.mp panicked).1 nothing
        refine ⟨iff_of_true quiet (by omega), fun _ => ?_, fun panicked => absurd panicked quiet⟩
        rw [pool, if_pos nothing, nothing]
        exact ⟨rfl, rfl, rfl⟩
      · obtain ⟨exceeded, large⟩ := releaseFits_multiple bound small nothing multiple
        have panicked := panics.mpr ⟨nothing, large⟩
        refine ⟨iff_of_false (not_not.mpr panicked) (by omega), absurd panicked,
          fun _ => ⟨?_, queue⟩⟩
        rw [pool, if_neg nothing]
        exact (addPermits_same bound).mpr multiple

/-- Three permits and five more are eight; `2 ^ 61` more are over the limit, and not atomic. -/
theorem release_atomic_iff_threePermits :
    Atomic .bits64 (start 3 () : State (Fin 1) Unit) (releaseNow .bits64 (start 3 ()) 0 5 .done)
      0 5 ∧
      ¬Atomic .bits64 (start 3 () : State (Fin 1) Unit)
        (releaseNow .bits64 (start 3 ()) 0 (2 ^ 61) .done) 0 (2 ^ 61) :=
  ⟨(release_atomic_iff (by decide) (by decide)).mpr (.inl (by decide)),
    fun atomic => absurd ((release_atomic_iff (by decide) (by decide)).mp atomic) (by decide)⟩

/-- `2 ^ 61` permits, one more than the limit, are added to none. -/
def overLimit : State (Fin 1) Unit := releaseNow .bits64 (start 0 ()) (Fin.last 0) (2 ^ 61) .done

/-- `2 ^ 64 - 1` permits are added to one. -/
def wrapsAround : State (Fin 1) Unit := releaseNow .bits64 (start 1 ()) (Fin.last 0) (2 ^ 64 - 1)
    .done

/-- **The two failures.** What is over the limit is in the pool when the call panics; and where the
sum wraps around the call returns, and the permit that was in the pool is gone. -/
theorem release_not_atomic :
    (Panicked overLimit 0 ∧ overLimit.pool = newPool (2 ^ 61) ∧
      ¬Atomic .bits64 (start 0 ()) overLimit 0 (2 ^ 61)) ∧
      ¬Panicked wrapsAround 0 ∧ wrapsAround.pool = newPool 0 ∧
        ¬Atomic .bits64 (start 1 ()) wrapsAround 0 (2 ^ 64 - 1) := by
  have panics : Panicked overLimit 0 := by
    unfold Panicked
    decide +kernel
  have returns : ¬Panicked wrapsAround 0 := by
    unfold Panicked
    decide +kernel
  refine ⟨⟨panics, by decide +kernel, fun atomic => ?_⟩, returns,
    by decide +kernel, fun atomic => ?_⟩
  · exact absurd (atomic.undoes panics).1 (by decide +kernel)
  · exact absurd (atomic.decides.mp returns) (by decide +kernel)

end Release

/-! ### Runs -/

section History

variable {width : PointerWidth} {state next : State ι γ} {party : ι} {after : After γ} {mode : Mode}

/-- No permits are created, and what was forgotten stays so. -/
def Aged (state next : State ι γ) : Prop := next.created = state.created ∧
    state.forgotten ≤ next.forgotten

theorem finish_aged : Aged state (finish state party after) := by
  cases after <;> exact ⟨rfl, le_rfl⟩

theorem release_aged {n : ℕ} : Aged state (release state party n after) := by
  unfold release
  split
  · exact finish_aged
  · exact ⟨rfl, le_rfl⟩

theorem signalNext_aged {closed : Bool} {chain : List ι} :
    Aged state (signalNext state party closed after chain) := by
  cases chain with
  | nil => exact finish_aged
  | cons node rest => exact ⟨rfl, le_rfl⟩

theorem acquired_aged : Aged state (acquired state party mode) := by
  cases mode <;> exact ⟨rfl, le_rfl⟩

theorem refused_aged : Aged state (refused state party mode) := by
  cases mode <;> exact ⟨rfl, le_rfl⟩

theorem enqueueOrAcquire_aged : Aged state (enqueueOrAcquire width state party mode) := by
  unfold enqueueOrAcquire
  split <;> exact ⟨rfl, le_rfl⟩

theorem tryNext_aged {attempt : Attempt} {cur : ℕ} :
    Aged state (tryNext width state party attempt cur) := by
  unfold tryNext
  split
  · cases attempt
    case acquireSyncSlow | pollAcquireSlow => exact refused_aged
    all_goals exact ⟨rfl, le_rfl⟩
  · split
    · cases attempt
      case acquireSyncSlow | pollAcquireSlow => exact enqueueOrAcquire_aged
      all_goals exact ⟨rfl, le_rfl⟩
    · exact ⟨rfl, le_rfl⟩

theorem unlocked_aged {back : Unlock ι γ} : Aged state (unlocked state party back) := by
  unfold unlocked
  split
  · exact acquired_aged
  · exact refused_aged
  · exact ⟨rfl, le_rfl⟩
  · exact ⟨rfl, le_rfl⟩
  · exact ⟨rfl, le_rfl⟩
  · exact signalNext_aged
  · exact signalNext_aged
  · split
    · exact release_aged
    · split <;> exact ⟨rfl, le_rfl⟩
  · exact ⟨rfl, le_rfl⟩

theorem finishSync_aged {value : SignalValue} : Aged state (finishSync state party value) := by
  unfold finishSync
  split
  · exact acquired_aged
  · exact release_aged

theorem pollFinal_aged {waker : Waker} {value : SignalValue} :
    Aged state (pollFinal state party waker value) := by
  unfold pollFinal
  split
  · exact ⟨rfl, le_rfl⟩
  · split
    · exact release_aged
    · exact acquired_aged

theorem advance_aged (stepped : advance width state party = some next) : Aged state next := by
  cases source : state.pc party <;>
    simp only [advance, source, Option.some.injEq, reduceCtorEq] at stepped
  case drainLock =>
    unfold drainLock at stepped
    split at stepped <;> cases stepped
    · exact finish_aged
    · exact ⟨rfl, le_rfl⟩
  case enqueueLock =>
    unfold enqueueLock at stepped
    split at stepped <;> cases stepped
    exact ⟨rfl, le_rfl⟩
  case cancelLock =>
    unfold cancelLock at stepped
    split at stepped <;> cases stepped <;> exact ⟨rfl, le_rfl⟩
  case closeLock =>
    unfold closeLock at stepped
    split at stepped <;> cases stepped <;> exact ⟨rfl, le_rfl⟩
  case syncPark =>
    simp only [syncPark] at stepped
    split at stepped <;> cases stepped
    exact finishSync_aged
  case cancelWait =>
    simp only [cancelWait] at stepped
    split at stepped <;> cases stepped
    exact release_aged
  all_goals subst stepped
  case tryLoad => exact tryNext_aged
  case tryCas attempt cur =>
    unfold tryCas
    split
    · cases attempt <;> exact acquired_aged
    · exact tryNext_aged
  case releaseAdd =>
    simp only [releaseAdd]
    split
    · split
      · exact ⟨rfl, le_rfl⟩
      · exact finish_aged
    · rename_i after _
      cases after <;> exact ⟨rfl, le_rfl⟩
  case unlock =>
    unfold unlock
    split
    · exact ⟨rfl, le_rfl⟩
    · exact unlocked_aged
  case unlockStore => exact unlocked_aged
  case signalPublish => exact signalNext_aged
  case syncSpin =>
    simp only [syncSpin]
    split
    · exact finishSync_aged
    · exact ⟨rfl, le_rfl⟩
  case syncSwap =>
    simp only [syncSwap]
    split
    · exact finishSync_aged
    · exact ⟨rfl, le_rfl⟩
  case rearmRegister =>
    unfold rearmRegister
    split <;> exact ⟨rfl, le_rfl⟩
  case rearmLoad =>
    simp only [rearmLoad]
    split
    · exact pollFinal_aged
    · exact ⟨rfl, le_rfl⟩
  case dropLoad =>
    unfold dropLoad
    split
    · exact ⟨rfl, le_rfl⟩
    · exact release_aged
    · exact release_aged
    all_goals exact ⟨rfl, le_rfl⟩
  case forgetLoad =>
    unfold forgetNext
    split <;> exact ⟨rfl, le_rfl⟩
  case forgetCas =>
    unfold forgetCas forgetNext
    split
    · exact ⟨rfl, Nat.le_add_right _ _⟩
    · split <;> exact ⟨rfl, le_rfl⟩
  case drainCas =>
    unfold drainCas
    split <;> exact ⟨rfl, le_rfl⟩
  case enqueueCas =>
    unfold enqueueCas
    split <;> exact ⟨rfl, le_rfl⟩
  case cancelRemove =>
    simp only [cancelRemove]
    split <;> exact ⟨rfl, le_rfl⟩
  case closeFlag =>
    simp only [closeFlag]
    split
    · exact ⟨rfl, le_rfl⟩
    · split <;> exact ⟨rfl, le_rfl⟩
  all_goals exact ⟨rfl, le_rfl⟩

/-- The permits that a move adds. -/
def Move.adds : Move γ → ℕ
  | .addPermits n => n
  | _ => 0

theorem drop_aged : Aged state (drop state party) := by
  unfold drop
  split <;> exact ⟨rfl, le_rfl⟩

theorem poll_aged {waker : Waker} : Aged state (poll state party waker) := by
  simp only [poll]
  split
  · exact ⟨rfl, le_rfl⟩
  · split
    · exact ⟨rfl, le_rfl⟩
    · exact pollFinal_aged

/-- The beginning of a call creates what it adds. -/
theorem begin_aged {move : Move γ} (stepped : begin width state party move = some next) :
    next.created = state.created + move.adds ∧ state.forgotten ≤ next.forgotten := by
  have aged (same : Aged state next) : next.created = state.created + 0 ∧
      state.forgotten ≤ next.forgotten := same
  cases move <;> simp only [begin, beginRequest] at stepped
  case advance => cases stepped
  case addPermits n =>
    split at stepped <;> cases stepped
    exact release_aged
  case poll =>
    split at stepped <;> cases stepped
    exact aged poll_aged
  case drop =>
    split at stepped <;> cases stepped
    exact aged drop_aged
  case dropPermit | downgrade =>
    split at stepped <;> cases stepped
    exact aged release_aged
  case split =>
    split at stepped
    · split at stepped <;> cases stepped <;> exact ⟨rfl, le_rfl⟩
    · cases stepped
  case forget =>
    split at stepped <;> cases stepped
    exact ⟨rfl, Nat.le_add_right _ _⟩
  all_goals
    split at stepped <;> cases stepped
    exact ⟨rfl, le_rfl⟩

end History

section Limit

variable {width : PointerWidth} {n : ℕ}

/-- **The permits that exist and those that the step adds are within the limit**, and so is what it
asks for: a larger request panics with a marked node that is in no queue, and the books are kept for
nodes that are in one. -/
def inLimit (width : PointerWidth) (state : State ι γ) (label : Label ι γ) : Bool :=
  decide (state.created + label.2.adds ≤ maxPermits width + state.forgotten ∧
    label.2.asks ≤ maxPermits width)

/-- The runs in which the live permits and the requests are at most `MAX_PERMITS`. -/
abbrev LimitedRuns (width : PointerWidth) (n : ℕ) (state : State ι γ) : Prop :=
  (machine ι γ width n).ReachableBy (fun state label _ => inLimit width state label = true) state

/-- **No sum of the next step exceeds the limit**: neither in the assertion of a `release`, nor in
the pool, nor in a permit that is merged. -/
structure WithinLimit (width : PointerWidth) (state : State ι γ) : Prop where
  pool : permits state.pool ≤ maxPermits width
  releases : ∀ party n after, state.pc party = .releaseAdd n after →
    releaseFits width state.pool n = true ∧
    permits (addPermits width state.pool n) = permits state.pool + n ∧
      permits state.pool + n ≤ maxPermits width
  writesBack : ∀ party after available chain, state.pc party = .drainReturn after available chain →
    permits (addPermits width state.pool available) = permits state.pool + available ∧
      permits state.pool + available ≤ maxPermits width
  merges : ∀ permit ∈ state.held, ∀ other ∈ state.held.erase permit,
    permit.permits + other.permits ≤ maxPermits width

variable [Fintype ι] {state : State ι γ}

/-- The books hold in these runs, and what exists is within the limit. -/
theorem ledger_of_limited (reach : LimitedRuns width n state) :
    Ledger width state ∧ state.created ≤ maxPermits width + state.forgotten := by
  refine reach.invariant (fun state => Ledger width state ∧
    state.created ≤ maxPermits width + state.forgotten) ?_ ?_
  · rintro _ ⟨small, kind, rfl⟩
    exact ⟨ledger_start kind, small⟩
  · rintro state label next - ⟨ledger, small⟩ stepped fits
    obtain ⟨fits, asks⟩ := of_decide_eq_true fits
    refine ⟨step_ledger ledger small asks stepped, ?_⟩
    have stepped : step width state label = some next := stepped
    unfold step at stepped
    split at stepped
    · obtain ⟨created, forgotten⟩ := advance_aged stepped
      omega
    · obtain ⟨created, forgotten⟩ := begin_aged stepped
      omega

/-- **Returning permits never overflows** while the permits that exist and the requests are within
the limit. -/
theorem within_limit (reach : LimitedRuns width n state) : WithinLimit width state := by
  obtain ⟨ledger, small⟩ := ledger_of_limited reach
  refine ⟨?_, fun party n after source => ?_, fun party after available chain source => ?_,
    fun permit member other distinct => ?_⟩
  · have count := ledger.count
    unfold stock at count
    omega
  · have room := ledger.fits source small
    have amount :
        shareAt (state.requested party) (state.signal party) (.releaseAdd n after : Pc ι γ) =
        n + after.permits := Nat.zero_add _
    have fits : permits state.pool + n ≤ maxPermits width := by omega
    exact ⟨releaseFits_of_le fits, addPermits_permits fits, fits⟩
  · have room := ledger.fits source small
    have amount : available ≤ shareAt (state.requested party) (state.signal party)
        (.drainReturn after available chain : Pc ι γ) := by
      rw [shareAt]
      exact Nat.le_add_right_of_le (Nat.le_add_right _ _)
    have fits : permits state.pool + available ≤ maxPermits width := by omega
    exact ⟨addPermits_permits fits, fits⟩
  · have first := heldPermits_erase member
    have second := heldPermits_erase distinct
    have count := ledger.count
    unfold stock at count
    omega

/-- All permits of a full semaphore are forgotten, and five others are added. -/
def refilled {ι : Type} (a : ι) : List (Label ι Unit) :=
  [(a, .forgetPermits (2 ^ 61 - 1)), (a, .advance), (a, .advance), (a, .addPermits 5)]

/-- More permits were created than the limit, and the addition fits. -/
theorem within_limit_refilled : ∃ state :
    State (Fin 1) Unit, LimitedRuns .bits64 (2 ^ 61 - 1) state ∧
    maxPermits .bits64 < state.created ∧ state.pc 0 = .releaseAdd 5 .done ∧
      WithinLimit .bits64 state := by
  obtain ⟨state, reach, ended⟩ :=
    System.exists_reachableBy_of_run (machine (Fin 1) Unit .bits64 (2 ^ 61 - 1))
    (fun state label _ => inLimit .bits64 state label)
    (fun state => decide (maxPermits .bits64 < state.created ∧ state.pc 0 = .releaseAdd 5 .done))
    ⟨by decide, (), rfl⟩ (refilled 0) (by decide +kernel)
  obtain ⟨created, adds⟩ := of_decide_eq_true ended
  exact ⟨state, reach, created, adds, within_limit reach⟩

end Limit

/-! ### Beyond the limit -/

section Additions

/-- Whether the latest call of a party is `add_permits`, and whether such a call has panicked. -/
structure Additions (ι : Type) where
  adding : ι → Bool
  panicked : Bool

/-- What the observer of the additions writes down. -/
def additions (width : PointerWidth) (record : Additions ι) (state : State ι γ) (label : Label ι γ)
    (_ : State ι γ) : Additions ι :=
  match label.2, state.pc label.1 with
  | .advance, .releaseAdd n _ =>
    { record with panicked := record.panicked ||
      (record.adding label.1 && !releaseFits width state.pool n) }
  | .advance, _ => record
  | .addPermits _, _ => { record with adding := Function.update record.adding label.1 true }
  | _, _ => { record with adding := Function.update record.adding label.1 false }

/-- The only permit is taken, as many as the limit are added, and the permit is dropped. -/
def overfilled {ι : Type} (a : ι) : List (Label ι Unit) :=
  [(a, .tryAcquire ⟨(), 1⟩), (a, .advance), (a, .advance), (a, .addPermits (2 ^ 61 - 1)),
    (a, .advance), (a, .dropPermit ⟨(), 1⟩), (a, .advance)]

/-- **The drop of a permit panics**, though every `add_permits` has returned, and the pool is over
the limit. -/
theorem limit_exceeded : ∃ (state : State (Fin 1) Unit) (record : Additions (Fin 1)),
    (machine (Fin 1) Unit .bits64 1).ObservedBy ⟨fun _ => false, false⟩ (additions .bits64)
    (fun _ _ _ => True)
      state record ∧ record.panicked = false ∧ state.outcome 0 = some .releaseTooLarge ∧
      permits state.pool = maxPermits .bits64 + 1 ∧ ¬WithinLimit .bits64 state := by
  obtain ⟨state, record, reach, ended⟩ :=
    System.exists_observed_of_run (machine (Fin 1) Unit .bits64 1)
    ⟨fun _ => false, false⟩ (additions .bits64)
    (fun state record => decide (record.panicked = false ∧ state.outcome 0 = some .releaseTooLarge ∧
      permits state.pool = maxPermits .bits64 + 1)) ⟨by decide, (), rfl⟩ (overfilled 0)
      (by decide +kernel)
  obtain ⟨returned, panicked, exceeded⟩ := of_decide_eq_true ended
  refine ⟨state, record, reach, returned, panicked, exceeded, fun within => ?_⟩
  have pool := within.pool
  omega

end Additions

end Xutex.Semaphore
