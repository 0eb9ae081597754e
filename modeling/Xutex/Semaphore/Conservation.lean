/-
**The semaphore neither loses nor mints permits.**

The runs are those in which every request and all the permits ever created are at most `MAX_PERMITS`
(`ModestRuns`). In each of their states the permits of the pool, of the running drains, of the
served nodes, of the live permits and of the calls that carry some are those created and not
forgotten (`conservation`), and no subtraction of the core underflows.
-/

import Xutex.Semaphore.Ledger

set_option linter.unusedSectionVars false

namespace Xutex.Semaphore

open Concurrency
open scoped BigOperators

variable {ι γ : Type} [DecidableEq ι] [DecidableEq γ] {width : PointerWidth}

/-! ### The runs -/

/-- The step asks for at most `MAX_PERMITS`, and at most as many were created after it. -/
def modest (width : PointerWidth) (label : Label ι γ) (next : State ι γ) : Bool :=
  decide (label.2.asks ≤ maxPermits width ∧ next.created ≤ maxPermits width)

/-- The runs whose requests and created permits are at most `MAX_PERMITS`. -/
abbrev ModestRuns (width : PointerWidth) (n : ℕ) (state : State ι γ) : Prop :=
  (machine ι γ width n).ReachableBy (fun _ label next => modest width label next = true) state

section Runs

variable [Fintype ι] {state next : State ι γ} {n : ℕ}

/-- **Every step keeps the books.** -/
theorem step_ledger {label : Label ι γ} (ledger : Ledger width state)
    (small : state.created ≤ maxPermits width + state.forgotten)
    (asks : label.2.asks ≤ maxPermits width)
    (stepped : step width state label = some next) : Ledger width next := by
  unfold step at stepped
  split at stepped
  · exact advance_ledger ledger small stepped
  · exact begin_ledger ledger small asks stepped

theorem ledger_start (kind : γ) : Ledger width (start n kind : State ι γ) where
  waiting := Discipline.Kept.start rfl fun _ => ⟨rfl, rfl, rfl, rfl⟩
  known _ := .free (Nat.zero_le _) rfl rfl rfl
  drained _ _ member := absurd member List.not_mem_nil
  count := by
    have shares : ∑ party, share (start n kind : State ι γ) party = 0 :=
      Finset.sum_eq_zero fun party _ => rfl
    have pool : permits (start n kind : State ι γ).pool = n := newPool_permits
    rw [shares, stock, pool]
    rfl

/-- **The books hold in every state of every such run.** -/
theorem ledger_of_reachable (reach : ModestRuns width n state) :
    Ledger width state ∧ state.created ≤ maxPermits width := by
  refine reach.invariant (fun state => Ledger width state ∧ state.created ≤ maxPermits width) ?_ ?_
  · rintro _ ⟨small, kind, rfl⟩
    exact ⟨ledger_start kind, small⟩
  · rintro state label next - ⟨ledger, small⟩ stepped fits
    obtain ⟨asks, created⟩ := of_decide_eq_true fits
    exact ⟨step_ledger ledger (Nat.le_add_right_of_le small) asks stepped, created⟩

end Runs

/-! ### The subtractions of a drain -/

/-- `usize::checked_sub`. -/
def checkedSub (a b : ℕ) : Option ℕ := if b ≤ a then some (a - b) else none

/-- The loop of `drain` with both of its subtractions checked. -/
def serveChecked : List ι → (ι → Signal) → ℕ → Option (Served ι)
  | [], signal, available => some ⟨[], [], signal, available⟩
  | front :: rest, signal, available =>
    let remaining := (signal front).aux
    if available < remaining then
      if 0 < available then do
        let missing ← checkedSub remaining available
        return ⟨[], front :: rest, Function.update signal front ((signal front).setAux missing), 0⟩
      else some ⟨[], front :: rest, signal, available⟩
    else do
      let unused ← checkedSub available remaining
      let served ← serveChecked rest (Function.update signal front ((signal front).setAux 0)) unused
      return { served with chain := front :: served.chain }

/-- No subtraction of the loop underflows. -/
theorem serveChecked_eq (entries : List ι) (signal : ι → Signal) (available : ℕ) :
    serveChecked entries signal available = some (serve entries signal available) := by
  induction entries generalizing signal available with
  | nil => rfl
  | cons front rest unserved =>
    simp only [serveChecked, serve, checkedSub]
    split
    · rename_i few
      rw [if_pos few.le]
      split <;> rfl
    · rename_i enough
      rw [if_pos (Nat.le_of_not_lt enough)]
      simp [unserved]

/-! ### Conservation -/

section Conservation

variable [Fintype ι]

/-- The permits that running drains have taken out of the pool. -/
def drainPermits (state : State ι γ) : ℕ := ∑ party, drainedAt (state.pc party)

/-- What the nodes that are queued, popped, or signalled and not consumed were served: the sum of
their `requested - aux`. -/
def entryPermits (state : State ι γ) : ℕ :=
  ∑ party, servedAt (state.requested party) (state.signal party) (state.pc party)

/-- The permits in transit inside the calls. -/
def transitPermits (state : State ι γ) :
    ℕ := ∑ party, transitAt (state.requested party) (state.pc party)

/-- **The permits of a state are conserved**, and its next step does not underflow. -/
structure Conserved (state : State ι γ) : Prop where
  /-- Everything created and not forgotten is somewhere. -/
  total : permits state.pool + drainPermits state + entryPermits state + heldPermits state.held +
    transitPermits state = state.created - state.forgotten
  /-- What was forgotten had been created. -/
  forgotten : state.forgotten ≤ state.created
  /-- `n - aux`, for a node that is armed or given away. -/
  served : ∀ party, (armedAt (state.pc party) = true ∨
    waitsAt (state.pc party) (state.signal party).value = true) →
      (state.signal party).aux ≤ state.requested party
  /-- `remaining - available` and `available - remaining`, for a drain of the queue. -/
  drained : ∀ available, serveChecked state.queue.entries state.signal available =
    some (serve state.queue.entries state.signal available)
  /-- `cur - (n << 2)`, in the two loops that take the permits of a request. -/
  taken : ∀ party cur, takesAt (state.pc party) = some cur → state.requested party <<< 2 ≤ cur
  /-- `cur - (n << 2)`, in `forget_permits`. -/
  forgets : ∀ party n cur, state.pc party = .forgetCas n cur → min (permits cur) n <<< 2 ≤ cur

/-- As many permits as the word counts can be taken from it. -/
theorem shiftLeft_le_of_permits {n cur : ℕ} (enough : n ≤ permits cur) : n <<< 2 ≤ cur := by
  rw [permits_eq] at enough
  rw [Nat.shiftLeft_eq]
  omega

variable {state : State ι γ} {n : ℕ}

/-- **Permit conservation**: in every state of every run whose requests and created permits are at
most `MAX_PERMITS`. -/
theorem conservation (reach : ModestRuns width n state) : Conserved state := by
  obtain ⟨ledger, -⟩ := ledger_of_reachable reach
  have count := ledger.count
  have shares : ∑ party, share state party =
      drainPermits state + transitPermits state + entryPermits state := by
    simp only [share, shareAt, drainPermits, transitPermits, entryPermits, Finset.sum_add_distrib]
  unfold stock at count
  refine ⟨by omega, by omega, fun party given => ?_, serveChecked_eq _ _, fun party cur taken => ?_,
    fun party n cur _ => ?_⟩
  · rcases given with armed | waits
    · exact ((ledger.known party).armed armed).le
    · exact (ledger.known party).served waits
  · exact shiftLeft_le_of_permits ((ledger.known party).takes cur taken)
  · exact shiftLeft_le_of_permits (min_le_left _ _)

/-- Of three permits `a` takes two; `b` asks for three and waits; one of the two is split off and
dropped, and the drain serves `b` in part. -/
def servedInPart {ι : Type} (a b : ι) : List (Label ι Unit) :=
  [(a, .tryAcquire ⟨(), 2⟩), (a, .advance), (a, .advance), (b, .create ⟨(), 3⟩), (b, .poll 0)] ++
  List.replicate 6 (b, .advance) ++
  [(a, .split ⟨(), 2⟩ 1), (a, .dropPermit ⟨(), 1⟩)] ++ List.replicate 6 (a, .advance)

/-- The permit that is still live, and the two that the waiter was served. -/
theorem conservation_servedInPart : ∃ state : State (Fin 2) Unit, ModestRuns .bits64 3 state ∧
    state.queue.entries = [1] ∧ (state.signal 1).aux = 1 ∧ heldPermits state.held = 1 ∧
    permits state.pool = 0 ∧ Conserved state := by
  obtain ⟨state, reach, ended⟩ := System.exists_reachableBy_of_run (machine (Fin 2) Unit .bits64 3)
    (fun _ label next => modest .bits64 label next)
    (fun state => decide (state.queue.entries = [1] ∧ (state.signal 1).aux = 1 ∧
      heldPermits state.held = 1 ∧ permits state.pool = 0)) ⟨by decide, (), rfl⟩ (servedInPart 0 1)
    (by decide +kernel)
  obtain ⟨queued, missing, live, none⟩ := of_decide_eq_true ended
  exact ⟨state, reach, queued, missing, live, none, conservation reach⟩

end Conservation

end Xutex.Semaphore
