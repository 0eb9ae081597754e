/-
**Who keeps the once-cell `RUNNING`.**

The role of the initializer is in the word of the cell and, for a future, in its flag, which are
written in separate steps with user code between them. A future clears its flag before it drops the
user future that has completed; when that destructor panics the poll unwinds with the flag down and
the word at `RUNNING`, and nobody is left to move it.

* `destructorReturns` — the step is not such a panic. Every other behaviour of user code, and every
  drop, is allowed.
* `running_owned` — **in the runs without it the word is `RUNNING`, when no call is executing,
  exactly while one live future is initializing, and whoever gives the role up leaves the cell
  `READY` or `EMPTY`.**
* `running_orphaned` is the run with it.
-/

import Xutex.OnceCell.Agreement

set_option linter.unusedSectionVars false

namespace Xutex.OnceCell

open Concurrency Discipline

variable {ι V : Type} [DecidableEq ι]

/-- **The destructor of a completed user future does not panic in this step.** -/
def destructorReturns (state : State ι V) (label : Label ι V) : Bool :=
  match label.2, state.pc label.1 with
  | .user .panic, .dropFut _ => false
  | _, _ => true

/-! ### What a step leaves alone -/

section Apart

variable {state next : State ι V} {party : ι}

/-- No destructor has panicked in the step, and the flags of other futures are as before. -/
structure Apart (state next : State ι V) (party : ι) : Prop where
  leaked : next.leaked = state.leaked
  others : ∀ other, other ≠ party → next.initializing other = state.initializing other

theorem Frame.apart (frame : Frame state next) : Apart state next party :=
  ⟨frame.leaked, fun other _ => congrFun frame.initializing other⟩

theorem advance_apart (stepped : advance state party = some next) : Apart state next party := by
  by_cases quiet : quietAt (state.pc party) = true
  · exact (advance_frame quiet stepped).apart
  cases source : state.pc party <;> simp [source, quietAt] at quiet <;>
    simp only [advance, source, Option.some.injEq] at stepped
  all_goals subst stepped
  case syncBegin =>
    unfold syncBegin tryBeginInit
    split
    · exact ⟨rfl, fun _ _ => rfl⟩
    · rename_i won
      split at won <;> cases won
      split <;> exact ⟨rfl, fun _ _ => rfl⟩
  case setBegin =>
    unfold setBegin tryBeginInit
    split
    · rename_i won
      split at won <;> cases won
      exact ⟨rfl, fun _ _ => rfl⟩
    · split <;> exact ⟨rfl, fun _ _ => rfl⟩
  case beginInit =>
    unfold beginInit tryBeginInit
    split
    · exact ⟨rfl, fun _ _ => rfl⟩
    · rename_i won
      split at won <;> cases won
      dsimp only
      split <;> exact ⟨rfl, fun other different => Function.update_of_ne different ..⟩
  all_goals exact ⟨rfl, fun _ _ => rfl⟩

theorem user_apart {act : UserAct V} (stepped : user state party act = some next)
    (returns : destructorReturns state (party, .user act) = true) : Apart state next party := by
  cases source : state.pc party <;> simp only [user, source, reduceCtorEq] at stepped
  case closure =>
    unfold closureAct at stepped
    split at stepped
    · cases stepped
      exact ⟨rfl, fun _ _ => rfl⟩
    · split at stepped <;> cases stepped
      exact ⟨rfl, fun _ _ => rfl⟩
    · cases stepped
      exact ⟨rfl, fun _ _ => rfl⟩
    all_goals cases stepped
  case produce =>
    unfold produceAct at stepped
    split at stepped <;> cases stepped <;> exact ⟨rfl, fun _ _ => rfl⟩
  case drive =>
    have lowered (other : ι) (different : other ≠ party) :
        Function.update state.initializing party false other = state.initializing other :=
      Function.update_of_ne different ..
    unfold driveAct at stepped
    split at stepped
    · cases stepped
      exact ⟨rfl, lowered⟩
    · split at stepped <;> cases stepped
      exact ⟨rfl, lowered⟩
    · cases stepped
      exact ⟨rfl, fun _ _ => rfl⟩
    · cases stepped
      exact ⟨rfl, fun _ _ => rfl⟩
    · cases stepped
  case dropFut result =>
    unfold dropFutAct at stepped
    split at stepped <;> cases stepped
    · exact ⟨rfl, fun _ _ => rfl⟩
    · simp [destructorReturns, source] at returns

theorem begin_apart [Fintype ι] {move : Move V} (stepped : begin state party move = some next) :
    Apart state next party := by
  cases move <;> simp only [begin] at stepped
  case user | advance => cases stepped
  case get | set | getOrInit =>
    split at stepped <;> cases stepped
    exact ⟨rfl, fun _ _ => rfl⟩
  case create =>
    split at stepped <;> cases stepped
    exact ⟨rfl, fun other different => Function.update_of_ne different ..⟩
  case poll =>
    split at stepped <;> cases stepped
    unfold poll
    split
    · split <;> exact ⟨rfl, fun _ _ => rfl⟩
    · exact ⟨rfl, fun _ _ => rfl⟩
  case drop =>
    split at stepped <;> cases stepped
    unfold drop
    split
    · exact ⟨rfl, fun other different => Function.update_of_ne different ..⟩
    · split <;> exact ⟨rfl, fun _ _ => rfl⟩
  case take =>
    split at stepped <;> cases stepped
    unfold take
    split <;> exact ⟨rfl, fun _ _ => rfl⟩

theorem step_apart [Fintype ι] {label : Label ι V} (stepped : step state label = some next)
    (returns : destructorReturns state label = true) : Apart state next label.1 := by
  unfold step at stepped
  split at stepped
  · exact advance_apart stepped
  · rename_i act move
    refine user_apart stepped ?_
    rwa [← move]
  · exact begin_apart stepped

end Apart

/-! ### Runs -/

section Runs

variable [Fintype ι] {state next : State ι V} {party : ι}

/-- The runs in which no destructor of a completed user future panics. -/
abbrev OrderlyRuns (state : State ι V) : Prop :=
  (machine ι V).ReachableBy (fun state label _ => destructorReturns state label = true) state

/-- The party runs no call, or a blocking one that waits for its signal. -/
def restsAt : Pc ι V → Bool
  | .idle | .future | .syncSwap | .syncPark => true
  | _ => false

/-- **No call on the cell is executing.** -/
def Resting (state : State ι V) : Prop := ∀ party, restsAt (state.pc party) = true

/-- A live future with its flag up. -/
def Initializes (state : State ι V) (party : ι) : Prop := state.pc party = .future ∧
    state.initializing party = true

theorem unleaked_of_reachable (reach : OrderlyRuns state) : state.leaked = false := by
  refine reach.invariant (fun state => state.leaked = false) ?_ ?_
  · rintro _ ⟨value, rfl⟩
    rfl
  · intro state label next _ unleaked stepped returns
    exact (step_apart stepped returns).leaked.trans unleaked

/-- At rest the role is with an initializing future. -/
theorem Resting.role_iff (resting : Resting state) (party : ι) : Role state party ↔
    Initializes state party := by
  have rests := resting party
  rw [Role, Initializes]
  cases source : state.pc party <;> rw [source] at rests <;> simp [restsAt, roleAt] at rests ⊢

/-- A step of one party does not touch the role of another. -/
theorem step_role {label : Label ι V} (agreed : Agreed state)
    (stepped : step state label = some next)
    (returns : destructorReturns state label = true) {other : ι} (different : other ≠ label.1) :
    Role next other ↔ Role state other := by
  have apart := step_apart stepped returns
  unfold step at stepped
  split at stepped
  · exact role_other (advance_moves agreed.parked.waiting stepped) apart.others different
  · exact role_other (user_moves agreed.parked.waiting stepped) apart.others different
  · by_cases isTake : label.2 = .take
    · rw [isTake] at stepped
      simp only [begin] at stepped
      split at stepped <;> cases stepped
      unfold take
      split <;> exact Iff.rfl
    · have marked (up : state.initializing label.1 = true) := (agreed.parked.marked label.1 up).2
      exact role_other (begin_moves isTake marked stepped) apart.others different

/-- **The word and the role.** -/
structure RunningOwned (state : State ι V) : Prop where
  /-- When no call is executing, the word is `RUNNING` exactly while one live future is
  initializing. -/
  owner : Resting state → (state.phase = .running ↔ ∃! party, Initializes state party)
  /-- Whoever gives the role up has completed the cell, or reverted it. -/
  exits : ∀ label next, step state label = some next → destructorReturns state label = true →
    ∀ party, Role state party → ¬Role next party → next.phase = .ready ∨ next.phase = .empty

/-- **The cell is never left `RUNNING` without an initializer**, for any number of parties, any
drops and any user code whose destructors return. -/
theorem running_owned (reach : OrderlyRuns state) : RunningOwned state := by
  have agreed := agreed_of_reachable reach
  have unleaked := unleaked_of_reachable reach
  refine ⟨fun resting => ⟨fun running => ?_, fun ⟨party, initializes, _⟩ => ?_⟩,
    fun label next stepped returns party holds loses => ?_⟩
  · obtain ⟨party, holds⟩ := agreed.held running unleaked
    refine ⟨party, (resting.role_iff party).mp holds, fun other initializes => ?_⟩
    exact agreed.unique other party ((resting.role_iff other).mpr initializes) holds
  · exact agreed.running party ((resting.role_iff party).mpr initializes)
  · have after : OrderlyRuns next := .step reach stepped returns
    cases phase : next.phase with
    | ready => exact .inl rfl
    | empty => exact .inr rfl
    | running =>
      -- somebody else would have the role then, and have had it before
      obtain ⟨other, has⟩ := (agreed_of_reachable after).held phase (unleaked_of_reachable after)
      have mover : party = label.1 := by
        by_contra different
        exact loses ((step_role agreed stepped returns different).mpr holds)
      have different : other ≠ label.1 := fun same => loses (mover ▸ same ▸ has)
      have had := (step_role agreed stepped returns different).mp has
      exact absurd (mover ▸ agreed.unique other party had holds) different

/-- The closure of a future panics; the future keeps the role between its polls. -/
def closurePanics {ι : Type} (a : ι) : List (Label ι ℕ) :=
  [(a, .create false), (a, .poll 0), (a, .advance), (a, .advance), (a, .advance), (a, .user .panic)]

theorem running_owned_closurePanics : ∃ state : State (Fin 1) ℕ, OrderlyRuns state ∧ Resting state ∧
    state.outcome 0 = some .panicked ∧ state.phase = .running ∧
      ∃! party, Initializes state party := by
  obtain ⟨state, reach, ended⟩ := System.exists_reachableBy_of_run (machine (Fin 1) ℕ)
    (fun state label _ => destructorReturns state label)
    (fun state => decide ((∀ party, restsAt (state.pc party) = true) ∧
      state.outcome 0 = some .panicked ∧
      state.phase = .running)) ⟨none, rfl⟩ (closurePanics 0) (by decide +kernel)
  obtain ⟨resting, panicked, running⟩ := of_decide_eq_true ended
  exact ⟨state, reach, resting, panicked, running, ((running_owned reach).owner resting).mp running⟩

/-- The user future of a poll answers with a value, and its destructor panics; then the outer future
is dropped. -/
def destructorPanics {ι : Type} (a : ι) : List (Label ι ℕ) :=
  [(a, .create false), (a, .poll 0), (a, .advance), (a, .advance), (a, .advance), (a, .user .done),
    (a, .user (.value 7)), (a, .user .panic), (a, .drop)]

/-- **The word is `RUNNING` and nobody is there**: no call is executing and no future is alive. -/
theorem running_orphaned : ∃ state : State (Fin 1) ℕ, (machine (Fin 1) ℕ).Reachable state ∧
    Resting state ∧
    (∀ party, state.pc party = .idle) ∧ state.phase = .running ∧
    ¬∃! party, Initializes state party := by
  obtain ⟨state, reach, ended⟩ := System.exists_reachable_of_run (machine (Fin 1) ℕ)
    (fun state => decide ((∀ party, restsAt (state.pc party) = true) ∧
    (∀ party, state.pc party = .idle) ∧
      state.phase = .running)) ⟨none, rfl⟩ (destructorPanics 0) (by decide +kernel)
  obtain ⟨resting, idle, running⟩ := of_decide_eq_true ended
  refine ⟨state, reach, resting, idle, running, fun ⟨party, ⟨alive, _⟩, _⟩ => ?_⟩
  rw [idle party] at alive
  cases alive

end Runs

end Xutex.OnceCell
