/-
**Who may stay parked when nothing runs.**

A completing arrival advances the generation at once and pops the waiters of its round later, and
the loop of `release_waiters` stops at the first node of another generation. Its comment takes for
granted that the nodes of its own generation are in front.

* `parked_current` — **nobody is stranded** in the runs in which a leader that drains finds a node
  of its generation in front, or none at all in the queue: when no call is executing, every linked
  node carries the current generation.
* `parked_stranded` — **without that condition a waiter is stranded.** The leaders of two rounds may
  drain in the wrong order: the later one finds a node of the earlier round in front and leaves
  without popping anything, and the earlier one stops where the nodes of the later round begin.
-/

import Xutex.Barrier.Steps

set_option linter.unusedSectionVars false

namespace Xutex.Barrier

open Concurrency Discipline

variable {ι : Type} [DecidableEq ι] [Fintype ι]

/-! ### Runs -/

section Runs

variable {half n : ℕ} {orderly : Prop} {state next : State ι} {party : ι}

section

variable (inv : Rounds half n orderly state) (waiting : Waiting state)
include inv waiting

/-- The steps inside a call keep the rounds. -/
theorem advance_rounds (small : n ≤ arrivedMask half) (bounded : NoWrap half state)
    (own : orderly → drainsOwn state (party, .advance) = true)
    (stepped : advance half n state party = some next) : Rounds half n orderly next := by
  have moved := advance_moves waiting stepped
  cases source : state.pc party <;> simp only [advance, source] at stepped
  case idle | future => cases stepped
  case arriveLoad mode =>
    cases stepped
    refine inv.leave waiting moved ⟨rfl, rfl, rfl, fun _ _ => rfl, rfl, fun _ _ => rfl⟩ ?_ ?_
      (Or.inl ?_)
    · simp [arriveLoad, inWaitAt, countsAt, waitsAt]
    · simp [source, leadsAt]
    · simp [source, countsAt, waitsAt]
  case arriveCas => cases stepped; exact arriveCas_rounds inv waiting small source
  case releaseLock => exact releaseLock_rounds inv waiting source stepped
  case releaseDrain => cases stepped; exact releaseDrain_rounds inv waiting bounded source own moved
  case releaseUnlock mode chain =>
    cases stepped
    exact releaseNext_rounds inv waiting moved ⟨rfl, rfl, rfl, fun _ _ => rfl, rfl, fun _ _ => rfl⟩
      rfl rfl (by rw [source]; exact ⟨rfl, rfl, rfl⟩) (by rw [source]; rfl)
  case releaseTake => cases stepped; exact releaseTake_rounds inv waiting source moved
  case releasePublish => cases stepped; exact releasePublish_rounds inv waiting source moved
  case enqueueLock => exact enqueueLock_rounds inv waiting source moved stepped
  case enqueueFresh =>
    cases stepped
    exact enqueueFresh_rounds inv waiting small bounded source moved
  case enqueuePush => cases stepped; exact enqueuePush_rounds inv waiting source
  case enqueueUnlock => cases stepped; exact enqueueUnlock_rounds inv waiting source
  case waitSwap => cases stepped; exact waitSwap_rounds inv waiting source
  case waitPark => exact waitPark_rounds inv waiting source moved stepped
  case rearmRegister => cases stepped; exact rearmRegister_rounds inv waiting source
  case rearmLoad => cases stepped; exact rearmLoad_rounds inv waiting source
  case withdrawLoad =>
    cases stepped
    exact withdrawTry_rounds inv waiting small moved (Or.inl source)
  case withdrawCas => cases stepped; exact withdrawCas_rounds inv waiting small bounded source moved
  case removeLock => exact removeLock_rounds inv waiting source moved stepped
  case removeNode => cases stepped; exact removeNode_rounds inv waiting source
  case removeUnlock => cases stepped; exact removeUnlock_rounds inv waiting source moved
  case dropSpin => exact dropSpin_rounds inv waiting source moved stepped

/-- The start of a call keeps the rounds. -/
theorem begin_rounds {move : Move} (stepped : begin state party move = some next) :
    Rounds half n orderly next := by
  have moved := begin_moves stepped
  cases move <;> simp only [begin] at stepped
  case advance => cases stepped
  all_goals
    split at stepped <;> cases stepped
    rename_i source
  case wait =>
    refine inv.leave waiting moved ⟨rfl, rfl, rfl, fun _ _ => rfl, rfl, fun _ _ => rfl⟩ ?_ ?_
      (Or.inl ?_)
    · simp [inWaitAt, countsAt, waitsAt]
    · simp [source, leadsAt]
    · simp [source, countsAt, waitsAt]
  case create =>
    have absent : ∀ node ∈ state.queue.entries, node ≠ party := fun node member same => by
      have waits : waitsAt (state.pc node) (state.value node) = true := (waiting.queued member).1
      rw [same, source] at waits
      cases waits
    refine inv.leave waiting moved ⟨rfl, rfl, rfl, fun _ different => ?_, rfl,
      fun node member => ?_⟩ ?_ ?_ (Or.inl ?_)
    · simp [different]
    · simp [absent node member]
    · simp [inWaitAt, countsAt, waitsAt, valueWaits]
    · simp [source, leadsAt]
    · simp [source, countsAt, waitsAt]
  case poll => exact poll_rounds inv waiting source moved
  case drop => exact drop_rounds inv waiting source moved

theorem step_rounds {label : Label ι} (small : n ≤ arrivedMask half) (bounded : NoWrap half state)
    (own : orderly → drainsOwn state label = true) (stepped : step half n state label = some next) :
    Rounds half n orderly next := by
  obtain ⟨party, move⟩ := label
  unfold step at stepped
  split at stepped
  · rename_i advances
    obtain rfl : move = .advance := advances
    exact advance_rounds inv waiting small bounded own stepped
  · exact begin_rounds inv waiting stepped

end

theorem rounds_start (positive : 0 < n) : Rounds half n orderly (start ι) where
  known party := Local.outside rfl
  count := by
    have none : arrivals (start ι) = 0 := Finset.sum_eq_zero fun party _ => share_eq_zero never
    exact ⟨by rw [none]; simp [start, packed], by rw [none]; exact positive⟩
  queue :=
    ⟨(by rintro _ ⟨⟩), List.Pairwise.nil, (by rintro _ _ ⟨⟩), (fun _ => never), (fun _ => never)⟩

end Runs

/-- The states of the runs in which every leader that drains finds a node of its own generation in
front, or none, and in which fewer than `2 ^ half` rounds complete during one wait. -/
abbrev OrderlyRuns (half n : ℕ) : State ι → Prop :=
  (machine ι half n).ReachableBy fun state label next =>
    drainsOwn state label = true ∧ NoWrap half next

theorem coreSize_pos (n : ℕ) : 0 < coreSize n := by
  unfold coreSize
  split <;> omega

theorem fits_of_reachable {half n : ℕ} {allowed : State ι → Label ι → State ι → Prop}
    {state : State ι}
    (reach : (machine ι half n).ReachableBy allowed state) : coreSize n ≤ arrivedMask half := by
  induction reach with
  | start initial => exact initial.1
  | step _ _ _ fits => exact fits

/-- **The invariant of the rounds on every orderly run.** -/
theorem rounds_of_reachable {half n : ℕ} {state : State ι} (reach : OrderlyRuns half n state) :
    Rounds half (coreSize n) True state ∧ NoWrap half state := by
  refine reach.invariant (fun state => Rounds half (coreSize n) True state ∧ NoWrap half state) ?_
    ?_
  · rintro _ ⟨-, rfl⟩
    exact ⟨rounds_start (coreSize_pos n), (fun _ => never)⟩
  · rintro state label next before ⟨inv, bounded⟩ stepped ⟨own, wraps⟩
    exact ⟨step_rounds inv (waiting_of_reachable before) (fits_of_reachable before) bounded
      (fun _ => own) stepped, wraps⟩

/-! ### Nobody is stranded -/

/-- No call on the barrier is executing: every party is idle, owns a future that is not being
polled, or is a thread parked for its signal. -/
def Resting : Pc ι → Bool
  | .idle | .future | .waitPark => true
  | _ => false

/-- **When no call is executing, every linked node carries the current generation**, whatever the
size, the number of parties and the interleaving, in the runs in which a leader that drains finds a
node of its own generation in front, or none in the queue. -/
theorem parked_current {half n : ℕ} {state : State ι} (reach : OrderlyRuns half n state)
    (rest : ∀ party, Resting (state.pc party) = true) :
    ∀ node ∈ state.queue.entries, (state.signal node).aux = generation half state.word := by
  intro node member
  obtain ⟨inv, -⟩ := rounds_of_reachable reach
  have fits : arrivals state < 2 ^ half := inv.fits (fits_of_reachable reach)
  rcases inv.queue.covered trivial node member with current | ⟨leader, leads, -⟩
  · rw [inv.queue.stamped node member, inv.count.word, generation_packed fits, current]
  · have resting := rest leader
    revert leads resting
    cases state.pc leader <;> simp [leadsAt, Resting]

/-- A party makes a future, polls it and takes `steps` steps in the poll. -/
def pollFor {ι : Type} (party : ι) (steps : ℕ) : List (Label ι) :=
  [(party, .create), (party, .poll 0)] ++ List.replicate steps (party, .advance)

/-- A barrier of two: `a` parks for the first round, `b` completes it and releases `a`, and `c`
parks for the second round. -/
def orderly {ι : Type} (a b c : ι) : List (Label ι) := pollFor a 6 ++ pollFor b 7 ++ pollFor c 6

/-- In an orderly run the one node still linked is of the current round. -/
theorem parked_current_orderly : ∃ state : State (Fin 3), OrderlyRuns 32 2 state ∧
    state.queue.entries = [2] ∧ state.rounds = 1 ∧
    ∀ node ∈ state.queue.entries, (state.signal node).aux = generation 32 state.word := by
  obtain ⟨state, reach, ended⟩ := System.exists_reachableBy_of_run (machine (Fin 3) 32 2)
    (fun state label next => drainsOwn state label && decide (NoWrap 32 next))
    (fun state => state.queue.entries = [2] && state.rounds = 1 &&
      decide (∀ party, Resting (state.pc party) = true))
    ⟨by decide, rfl⟩ (orderly 0 1 2) (by decide +kernel)
  have orderlyReach : OrderlyRuns 32 2 state := reach.mono fun _ _ _ passed => by
    simpa only [Bool.and_eq_true, decide_eq_true_eq] using passed
  simp only [Bool.and_eq_true, decide_eq_true_eq] at ended
  exact ⟨state, orderlyReach, ended.1.1, ended.1.2, parked_current orderlyReach ended.2⟩

/-- A barrier of two and four futures. `a` parks for the first round; `b` completes it, but does not
drain yet; `c` parks for the second round and `d` completes that; then `d` drains, and `b` after
it. -/
def overtaking {ι : Type} (a b c d : ι) : List (Label ι) :=
  pollFor a 6 ++ pollFor b 2 ++ pollFor c 6 ++ pollFor d 5 ++ List.replicate 5 (b, .advance)

/-- **A waiter is stranded.** Two rounds are over, no poll, drop or blocking wait is executing, and
the node of `2` is still linked with the generation of the second round: nobody is left to pop
it. -/
theorem parked_stranded : ∃ state : State (Fin 4),
    (machine (Fin 4) 32 2).ReachableBy (fun _ _ next => NoWrap 32 next) state ∧
    (∀ party, state.pc party = .future) ∧ generation 32 state.word = 2 ∧
    ∃ node ∈ state.queue.entries, (state.signal node).aux = 1 := by
  obtain ⟨state, reach, ended⟩ := System.exists_reachableBy_of_run (machine (Fin 4) 32 2)
    (fun _ _ next => decide (NoWrap 32 next))
    (fun state => decide ((∀ party, state.pc party = .future) ∧ generation 32 state.word = 2 ∧
      ∃ node ∈ state.queue.entries, (state.signal node).aux = 1))
    ⟨by decide, rfl⟩ (overtaking 0 1 2 3) (by decide +kernel)
  exact ⟨state, reach.mono fun _ _ _ passed => of_decide_eq_true passed, of_decide_eq_true ended⟩

end Xutex.Barrier
