/-
**Every round counts exactly its parties.**

`parked_stranded` shows that a leader may leave a waiter of its round behind. Who is counted does
not depend on that: the word of the barrier is exact in every run in which fewer than `2 ^ half`
rounds complete during one wait, whoever drains the queue first.

* `Register` — per round: the arrivals, those taken back by a dropped future, and the leaders.
* `reportOf` — what a step reports to the caller, `step_outcome` compares it with the step.
* `rounds_exact` — **the low half of the word is the number of arrivals of the current round that
  were not taken back, and it is smaller than the size; the high half is the number of completed
  rounds; a completed round had as many arrivals as the barrier has parties, and one leader; and no
  wait returns before its round is over.**
-/

import Xutex.Barrier.Stranded
import Xutex.Concurrency.Observers

set_option linter.unusedSectionVars false

namespace Xutex.Barrier

open Concurrency Discipline

variable {ι : Type} [DecidableEq ι]

/-! ### The register of the rounds -/

/-- Per round: how many arrivals it saw, how many were taken back, how many became its leader. -/
structure Register where
  arrived : ℕ → ℕ
  withdrawn : ℕ → ℕ
  leaders : ℕ → ℕ

namespace Register

/-- Nothing has happened. -/
def new : Register := ⟨fun _ => 0, fun _ => 0, fun _ => 0⟩

/-- One more in `round`. -/
def bump (count : ℕ → ℕ) (round : ℕ) : ℕ → ℕ := Function.update count round (count round + 1)

theorem bump_self (count : ℕ → ℕ) (round : ℕ) : bump count round round = count round + 1 :=
  Function.update_self ..

theorem bump_of_ne {count : ℕ → ℕ} {round other : ℕ} (different : other ≠ round) :
    bump count round other = count other :=
  Function.update_of_ne different ..

end Register

open Register

/-- The word an arriving party expects. -/
def arrivesAt : Pc ι → Option ℕ
  | .arriveCas _ cur => some cur
  | _ => none

/-- **What the register takes down.** A successful `compare_exchange_weak` of `arrive` is an arrival
in the round that is forming, and it leads the round if `release_waiters` is next; a successful one
of `drop_slow` takes back the arrival of the dropped future. -/
def observe (register : Register) (state : State ι) (label : Label ι) (next : State ι) : Register :=
  if label.2 = .advance ∧ arrivesAt (state.pc label.1) = some state.word then
    { register with
      arrived := bump register.arrived state.rounds
      leaders :=
        if leadsAt (next.pc label.1) then bump register.leaders state.rounds else register.leaders }
  else if label.2 = .advance ∧ withdrawsAt (state.pc label.1) = some state.word then
    { register with withdrawn := bump register.withdrawn (state.round label.1) }
  else register

/-! ### What a step reports -/

/-- The end of `poll` on a value other than `SIGNAL_INIT_WAITING`. -/
def pollReport (value : SignalValue) : Option Outcome :=
  if value.reachesAll then if value = .returned then some .polledAfterCompletion else some .follower
  else none

/-- What the step of `label` reports to its caller: a wait returns with `leader` or `follower`. -/
def reportOf (state : State ι) (label : Label ι) : Option Outcome :=
  match label.2, state.pc label.1 with
  | .advance, .releaseLock _ _ =>
    match state.queue.lock label.1 false with
    | .absent => some .leader
    | _ => none
  | .advance, .releaseUnlock _ [] | .advance, .releasePublish _ _ [] => some .leader
  | .advance, .enqueueUnlock _ false => some .follower
  | .advance, .waitSwap | .advance, .waitPark =>
    if (state.signal label.1).value.reachesAll then some .follower else none
  | .advance, .rearmLoad _ =>
    if (state.signal label.1).value.isFinal then pollReport (state.signal label.1).value else none
  | .poll _, .future =>
    if (state.signal label.1).value = .initWaiting then none
    else pollReport (state.signal label.1).value
  | _, _ => none

/-- The outcomes after a report of `party`. -/
def reported (outcome : ι → Option Outcome) (party : ι) : Option Outcome → ι → Option Outcome
  | none => outcome
  | some report => Function.update outcome party (some report)

section Reports

variable {half n : ℕ} {state next : State ι} {party : ι}

theorem pollValue_outcome {waker : Waker} {value : SignalValue} :
    (pollValue state party waker value).outcome = reported state.outcome party
    (pollReport value) := by
  unfold pollValue pollReport
  split
  · split <;> rfl
  · rfl

theorem arriveCas_outcome {mode : Mode} {cur : ℕ} :
    (arriveCas half n state party mode cur).outcome = state.outcome := by
  unfold arriveCas
  split
  · dsimp only
    split <;> cases mode <;> rfl
  · rfl

theorem advance_outcome (stepped : advance half n state party = some next) :
    next.outcome = reported state.outcome party (reportOf state (party, .advance)) := by
  cases source : state.pc party <;>
    simp only [advance, source, Option.some.injEq, reduceCtorEq] at stepped
  case releaseLock =>
    unfold releaseLock at stepped
    cases found : state.queue.lock party false <;> simp only [found] at stepped <;>
      cases stepped <;>
      simp [reportOf, source, found, reported, releaseReturn]
  case enqueueLock =>
    unfold enqueueLock at stepped
    split at stepped <;> cases stepped
    simp [reportOf, source, reported]
  case waitPark =>
    unfold waitPark at stepped
    split at stepped <;> cases stepped
    rename_i reaches
    simp [reportOf, source, reported, reaches]
  case removeLock =>
    unfold removeLock at stepped
    split at stepped <;> cases stepped <;> simp [reportOf, source, reported]
  case dropSpin =>
    unfold dropSpin at stepped
    split at stepped <;> cases stepped
    simp [reportOf, source, reported]
  all_goals subst stepped
  case arriveCas => rw [arriveCas_outcome]; simp [reportOf, source, reported]
  case releaseUnlock mode chain =>
    cases chain <;> simp [reportOf, source, reported, releaseNext, releaseReturn]
  case releasePublish mode node rest =>
    cases rest <;> simp [reportOf, source, reported, releasePublish, releaseNext, releaseReturn]
  case enqueueFresh =>
    unfold enqueueFresh
    split <;> simp [reportOf, source, reported]
  case enqueueUnlock mode enqueued =>
    cases mode <;> cases enqueued <;> simp [reportOf, source, reported, enqueueUnlock]
  case waitSwap =>
    by_cases reaches : (state.signal party).value.reachesAll <;>
      simp [reportOf, source, reported, waitSwap, reaches]
  case rearmRegister =>
    unfold rearmRegister
    split <;> simp [reportOf, source, reported]
  case rearmLoad =>
    by_cases final : (state.signal party).value.isFinal
    · simp [reportOf, source, rearmLoad, final, pollValue_outcome]
    · simp [reportOf, source, rearmLoad, final, reported]
  case withdrawLoad =>
    unfold withdrawTry
    split <;> simp [reportOf, source, reported]
  case withdrawCas =>
    unfold withdrawCas withdrawTry
    split
    · simp [reportOf, source, reported]
    · split <;> simp [reportOf, source, reported]
  all_goals simp [reportOf, source, reported, arriveLoad, releaseDrain, releaseTake, enqueuePush,
    removeNode, removeUnlock]

theorem begin_outcome {move : Move} (stepped : begin state party move = some next) :
    next.outcome = reported state.outcome party (reportOf state (party, move)) := by
  cases move <;> simp only [begin] at stepped
  case advance => cases stepped
  all_goals
    split at stepped <;> cases stepped
    rename_i source
  case poll =>
    by_cases initial : (state.signal party).value = .initWaiting
    · simp [poll, reportOf, source, initial, reported]
    · simp [poll, reportOf, source, initial, pollValue_outcome]
  case drop =>
    unfold drop
    split <;> rfl
  all_goals rfl

/-- **`reportOf` is what the step reports.** -/
theorem step_outcome {label : Label ι} (stepped : step half n state label = some next) :
    next.outcome = reported state.outcome label.1 (reportOf state label) := by
  obtain ⟨party, move⟩ := label
  unfold step at stepped
  split at stepped
  · rename_i advances
    obtain rfl : move = .advance := advances
    exact advance_outcome stepped
  · exact begin_outcome stepped

end Reports

/-! ### The word and the rounds -/

/-- The program points of `release_waiters`. -/
def releasesAt : Pc ι → Bool
  | .releaseLock _ _ | .releaseDrain _ _ | .releaseUnlock _ _ => true
  | .releaseTake _ _ _ | .releasePublish _ _ _ => true
  | _ => false

/-- The step neither arrives nor takes an arrival back. -/
structure Quiet (state next : State ι) (party : ι) : Prop where
  word : next.word = state.word
  rounds : next.rounds = state.rounds
  round : next.round = state.round
  releases : releasesAt (next.pc party) = true → releasesAt (state.pc party) = true

/-- What an arrival does to the rounds. -/
structure Arrives (half n : ℕ) (state next : State ι) (party : ι) : Prop where
  word : next.word = arriveNext half n state.word
  round : next.round = Function.update state.round party state.rounds
  rounds : next.rounds = state.rounds + if arrived half next.word = 0 then 1 else 0
  leads : leadsAt (next.pc party) = decide (arrived half next.word = 0)
  releases : releasesAt (next.pc party) = leadsAt (next.pc party)

/-- What a withdrawal does to the rounds. -/
structure Withdraws (half : ℕ) (state next : State ι) (party : ι) : Prop where
  word : next.word = withdrawNext half state.word
  rounds : next.rounds = state.rounds
  round : next.round = state.round
  releases : releasesAt (next.pc party) = false

section Word

variable {half n : ℕ} {state next : State ι} {party : ι}

theorem arriveCas_arrives {mode : Mode} :
    Arrives half n state (arriveCas half n state party mode state.word) party := by
  by_cases last : arrived half (arriveNext half n state.word) = 0 <;>
    constructor <;> simp [arriveCas, last, leadsAt, releasesAt]

theorem pollValue_quiet {waker : Waker} {value : SignalValue} :
    Quiet state (pollValue state party waker value) party := by
  unfold pollValue
  split
  · split <;> exact ⟨rfl, rfl, rfl, by simp [releasesAt]⟩
  · exact ⟨rfl, rfl, rfl, by simp [releasesAt]⟩

theorem withdrawTry_quiet {cur : ℕ} : Quiet state (withdrawTry half state party cur) party := by
  unfold withdrawTry
  split <;> exact ⟨rfl, rfl, rfl, by simp [releasesAt]⟩

theorem releaseNext_quiet {before : State ι} {mode : Mode} {chain : List ι}
    (releases : releasesAt (state.pc party) = true) (word : before.word = state.word)
    (rounds : before.rounds = state.rounds) (round : before.round = state.round) :
    Quiet state (releaseNext before party mode chain) party := by
  cases chain <;> exact ⟨word, rounds, round, fun _ => releases⟩

theorem advance_quiet (stepped : advance half n state party = some next)
    (arrives : arrivesAt (state.pc party) ≠ some state.word)
    (withdraws : withdrawsAt (state.pc party) ≠ some state.word) : Quiet state next party := by
  cases source : state.pc party <;>
    simp only [advance, source, Option.some.injEq, reduceCtorEq] at stepped
  case releaseLock =>
    unfold releaseLock at stepped
    split at stepped <;> cases stepped <;> exact ⟨rfl, rfl, rfl, fun _ => by rw [source]; rfl⟩
  case enqueueLock =>
    unfold enqueueLock at stepped
    split at stepped <;> cases stepped
    exact ⟨rfl, rfl, rfl, by simp [releasesAt]⟩
  case waitPark =>
    unfold waitPark at stepped
    split at stepped <;> cases stepped
    exact ⟨rfl, rfl, rfl, by simp [releasesAt]⟩
  case removeLock =>
    unfold removeLock at stepped
    split at stepped <;> cases stepped <;> exact ⟨rfl, rfl, rfl, by simp [releasesAt]⟩
  case dropSpin =>
    unfold dropSpin at stepped
    split at stepped <;> cases stepped
    exact ⟨rfl, rfl, rfl, by simp [releasesAt]⟩
  all_goals subst stepped
  case arriveCas mode cur =>
    have stale : state.word ≠ cur := fun same => arrives (by rw [source, same]; rfl)
    rw [arriveCas, if_neg stale]
    exact ⟨rfl, rfl, rfl, by simp [releasesAt]⟩
  case releaseUnlock | releasePublish =>
    exact releaseNext_quiet (by rw [source]; rfl) rfl rfl rfl
  case enqueueFresh =>
    unfold enqueueFresh
    split <;> exact ⟨rfl, rfl, rfl, by simp [releasesAt]⟩
  case enqueueUnlock mode enqueued =>
    cases mode <;> cases enqueued <;> exact ⟨rfl, rfl, rfl, by simp [enqueueUnlock, releasesAt]⟩
  case waitSwap =>
    unfold waitSwap
    dsimp only
    split <;> exact ⟨rfl, rfl, rfl, by simp [releasesAt]⟩
  case rearmRegister =>
    unfold rearmRegister
    dsimp only
    split <;> exact ⟨rfl, rfl, rfl, by simp [releasesAt]⟩
  case rearmLoad =>
    unfold rearmLoad
    dsimp only
    split
    · exact pollValue_quiet
    · exact ⟨rfl, rfl, rfl, by simp [releasesAt]⟩
  case withdrawLoad => exact withdrawTry_quiet
  case withdrawCas cur =>
    have stale : state.word ≠ cur := fun same => withdraws (by rw [source, same]; rfl)
    rw [withdrawCas, if_neg stale]
    exact withdrawTry_quiet
  case removeUnlock found =>
    cases found <;> exact ⟨rfl, rfl, rfl, by simp [removeUnlock, releasesAt]⟩
  all_goals exact ⟨rfl, rfl, rfl, by
    simp [source, arriveLoad, releaseDrain, releaseTake, enqueuePush, removeNode, releasesAt]⟩

theorem begin_quiet {move : Move} (stepped : begin state party move = some next) :
    Quiet state next party := by
  cases move <;> simp only [begin] at stepped
  case advance => cases stepped
  all_goals split at stepped <;> cases stepped
  case poll =>
    unfold poll
    split
    · exact ⟨rfl, rfl, rfl, by simp [releasesAt]⟩
    · exact pollValue_quiet
  case drop =>
    unfold drop
    split <;> exact ⟨rfl, rfl, rfl, by simp [releasesAt]⟩
  all_goals exact ⟨rfl, rfl, rfl, by simp [releasesAt]⟩

/-- **What a step does to the rounds, and what the register takes down of it.** -/
theorem step_word {label : Label ι} (register : Register)
    (stepped : step half n state label = some next) :
    (Arrives half n state next label.1 ∧ arrivesAt (state.pc label.1) = some state.word ∧
      observe register state label next = { register with
        arrived := bump register.arrived state.rounds
        leaders :=
          if leadsAt (next.pc label.1) then bump register.leaders state.rounds else
            register.leaders }) ∨
    (Withdraws half state next label.1 ∧ state.pc label.1 = .withdrawCas state.word ∧
      observe register state label next =
        { register with withdrawn := bump register.withdrawn (state.round label.1) }) ∨
    (Quiet state next label.1 ∧ observe register state label next = register) := by
  obtain ⟨party, move⟩ := label
  unfold step at stepped
  split at stepped
  · rename_i advances
    obtain rfl : move = .advance := advances
    by_cases arrives : arrivesAt (state.pc party) = some state.word
    · obtain ⟨mode, source⟩ : ∃ mode, state.pc party = .arriveCas mode state.word := by
        revert arrives
        cases state.pc party <;> simp [arrivesAt]
      simp only [advance, source, Option.some.injEq] at stepped
      exact Or.inl ⟨stepped ▸ arriveCas_arrives, arrives, if_pos ⟨rfl, arrives⟩⟩
    · by_cases withdraws : withdrawsAt (state.pc party) = some state.word
      · have source : state.pc party = .withdrawCas state.word := by
          revert withdraws
          cases state.pc party <;> simp [withdrawsAt]
        simp only [advance, source, Option.some.injEq, withdrawCas, if_true] at stepped
        refine Or.inr (Or.inl ⟨?_, source, ?_⟩)
        · subst stepped
          exact ⟨rfl, rfl, rfl, by simp [releasesAt]⟩
        · rw [observe, if_neg fun both => arrives both.2, if_pos ⟨rfl, withdraws⟩]
      · refine Or.inr (Or.inr ⟨advance_quiet stepped arrives withdraws, ?_⟩)
        rw [observe, if_neg fun both => arrives both.2, if_neg fun both => withdraws both.2]
  · rename_i begins
    refine Or.inr (Or.inr ⟨begin_quiet stepped, ?_⟩)
    rw [observe, if_neg fun both => begins both.1, if_neg fun both => begins both.1]

end Word

/-! ### The register in every run -/

/-- The states of the runs in which fewer than `2 ^ half` rounds complete during one wait, with the
register of their rounds. -/
abbrev RegisteredRuns (half n : ℕ) : State ι → Register → Prop :=
  (machine ι half n).ObservedBy Register.new observe fun _ _ next => NoWrap half next

/-- **The register agrees with the word.** -/
structure Tallied (half n : ℕ) (state : State ι) (register : Register) : Prop where
  current :
    register.arrived state.rounds = register.withdrawn state.rounds + arrived half state.word
  completed : ∀ round < state.rounds,
    register.arrived round = register.withdrawn round + n ∧ register.leaders round = 1
  ahead : ∀ round, state.rounds < round → register.arrived round = 0 ∧ register.withdrawn round = 0
  unled : ∀ round, state.rounds ≤ round → register.leaders round = 0
  released : ∀ party, releasesAt (state.pc party) = true → state.round party < state.rounds

variable [Fintype ι]

section Tally

variable {half n : ℕ} {state next : State ι} {party : ι} {register : Register}

/-- Who stands in `release_waiters` leads a round that is over. -/
theorem Tallied.released_step (tallied : Tallied half n state register)
    (moved : MovesFrom state next party (state.pc party)) (grows : state.rounds ≤ next.rounds)
    (round : ∀ other, other ≠ party → next.round other = state.round other)
    (self : releasesAt (next.pc party) = true → next.round party < next.rounds) (other : ι)
    (releases : releasesAt (next.pc other) = true) : next.round other < next.rounds := by
  by_cases same : other = party
  · exact same ▸ self (same ▸ releases)
  · rw [pc_other moved same] at releases
    rw [round other same]
    exact (tallied.released other releases).trans_le grows

theorem Tallied.quiet (tallied : Tallied half n state register)
    (moved : MovesFrom state next party (state.pc party)) (quiet : Quiet state next party) :
    Tallied half n next register where
  current := by rw [quiet.rounds, quiet.word]; exact tallied.current
  completed := by rw [quiet.rounds]; exact tallied.completed
  ahead := by rw [quiet.rounds]; exact tallied.ahead
  unled := by rw [quiet.rounds]; exact tallied.unled
  released := by
    refine tallied.released_step moved quiet.rounds.ge (fun other _ => by rw [quiet.round])
      fun releases => ?_
    rw [quiet.round, quiet.rounds]
    exact tallied.released party (quiet.releases releases)

section

variable (tallied : Tallied half n state register) (inv : Rounds half n False state)
include tallied inv

/-- An arrival that does not complete its round. -/
theorem Tallied.arrive (small : n ≤ arrivedMask half)
    (moved : MovesFrom state next party (state.pc party))
    (arrives : Arrives half n state next party) (more : arrivals state + 1 < n) :
    Tallied half n next { register with arrived := bump register.arrived state.rounds } := by
  have fits : arrivals state + 1 < 2 ^ half := by
    unfold arrivedMask at small
    omega
  have low : arrived half state.word = arrivals state := by
    rw [inv.count.word, arrived_packed (inv.fits small)]
  have after : arrived half next.word = arrivals state + 1 := by
    rw [arrives.word, inv.count.word, arriveNext_waiting (inv.fits small) more, arrived_packed fits]
  have rounds : next.rounds = state.rounds := by
    rw [arrives.rounds, after, if_neg (Nat.succ_ne_zero _), Nat.add_zero]
  have notLeading : releasesAt (next.pc party) = false := by
    rw [arrives.releases, arrives.leads, after]
    exact decide_eq_false (Nat.succ_ne_zero _)
  refine ⟨?_, ?_, ?_, ?_, ?_⟩
  · have before := tallied.current
    dsimp only
    rw [rounds, after, bump_self]
    omega
  · intro round past
    rw [rounds] at past
    dsimp only
    rw [bump_of_ne past.ne]
    exact tallied.completed round past
  · intro round later
    rw [rounds] at later
    dsimp only
    rw [bump_of_ne later.ne']
    exact tallied.ahead round later
  · rw [rounds]
    exact tallied.unled
  · refine tallied.released_step moved rounds.ge (fun other different => ?_) fun releases => ?_
    · rw [arrives.round, Function.update_of_ne different]
    · rw [notLeading] at releases
      cases releases

/-- **The completing arrival**: it is the one that fills the round, and it leads it. -/
theorem Tallied.complete (small : n ≤ arrivedMask half)
    (moved : MovesFrom state next party (state.pc party))
    (arrives : Arrives half n state next party) (last : n ≤ arrivals state + 1) :
    Tallied half n next { register with
      arrived := bump register.arrived state.rounds
      leaders := bump register.leaders state.rounds } := by
  have low : arrived half state.word = arrivals state := by
    rw [inv.count.word, arrived_packed (inv.fits small)]
  have after : arrived half next.word = 0 := by
    rw [arrives.word, inv.count.word, arriveNext_completing (inv.fits small) last,
      arrived_packed (Nat.two_pow_pos half)]
  have rounds : next.rounds = state.rounds + 1 := by rw [arrives.rounds, if_pos after]
  refine ⟨?_, ?_, ?_, ?_, ?_⟩
  · obtain ⟨none, untouched⟩ := tallied.ahead (state.rounds + 1) (Nat.lt_succ_self _)
    dsimp only
    rw [rounds, bump_of_ne (Nat.succ_ne_self _), none, untouched, after]
  · intro round past
    rw [rounds] at past
    by_cases filled : round = state.rounds
    · subst filled
      have before := tallied.current
      have below := inv.count.below
      have unled := tallied.unled state.rounds le_rfl
      dsimp only
      rw [bump_self, bump_self]
      omega
    · dsimp only
      rw [bump_of_ne filled, bump_of_ne filled]
      exact tallied.completed round (by omega)
  · intro round later
    rw [rounds] at later
    dsimp only
    rw [bump_of_ne (by omega)]
    exact tallied.ahead round (by omega)
  · intro round later
    rw [rounds] at later
    dsimp only
    rw [bump_of_ne (by omega)]
    exact tallied.unled round (by omega)
  · refine tallied.released_step moved (by omega) (fun other different => ?_) fun _ => ?_
    · rw [arrives.round, Function.update_of_ne different]
    · rw [arrives.round, Function.update_self, rounds]
      exact Nat.lt_succ_self _

/-- A withdrawal takes an arrival of the round that is forming back. -/
theorem Tallied.withdraw (small : n ≤ arrivedMask half) (bounded : NoWrap half state)
    (moved : MovesFrom state next party (state.pc party))
    (withdraws : Withdraws half state next party)
    (source : state.pc party = .withdrawCas state.word) :
    Tallied half n next
      { register with withdrawn := bump register.withdrawn (state.round party) } := by
  have current := inv.withdraws_current small bounded source
  -- the arrival is still in the count, so that the count does not borrow
  have counted : 1 ≤ arrivals state := by
    have mine : share state party = 1 := share_eq_one (by rw [source]; rfl) current
    rw [← mine]
    exact share_le_sum (share state) party
  obtain ⟨fewer, total⟩ : ∃ fewer, arrivals state = fewer + 1 := ⟨arrivals state - 1, by omega⟩
  have fits := inv.fits small
  have low : arrived half state.word = fewer + 1 := by
    rw [inv.count.word, arrived_packed fits, total]
  have lower : arrived half next.word = fewer := by
    rw [withdraws.word, inv.count.word, total, withdrawNext_packed (by omega),
      arrived_packed (by omega)]
  rw [current]
  refine ⟨?_, ?_, ?_, ?_, ?_⟩
  · have before := tallied.current
    dsimp only
    rw [withdraws.rounds, lower, bump_self]
    omega
  · intro round past
    rw [withdraws.rounds] at past
    dsimp only
    rw [bump_of_ne past.ne]
    exact tallied.completed round past
  · intro round later
    rw [withdraws.rounds] at later
    dsimp only
    rw [bump_of_ne later.ne']
    exact tallied.ahead round later
  · rw [withdraws.rounds]
    exact tallied.unled
  · refine tallied.released_step moved withdraws.rounds.ge (fun other _ => by rw [withdraws.round])
      fun releases => ?_
    rw [withdraws.releases] at releases
    cases releases

/-- One step of the barrier and of its register. -/
theorem Tallied.step {label : Label ι} (waiting : Waiting state) (small : n ≤ arrivedMask half)
    (bounded : NoWrap half state) (stepped : step half n state label = some next) :
    Tallied half n next (observe register state label next) := by
  have moved := step_moves waiting stepped
  rcases step_word register stepped with ⟨arrives, -, seen⟩ | ⟨withdraws, source, seen⟩
    | ⟨quiet, seen⟩
  · rw [seen, arrives.leads]
    rcases Nat.lt_or_ge (arrivals state + 1) n with more | last
    · have after : arrived half next.word ≠ 0 := by
        rw [arrives.word, inv.count.word, arriveNext_waiting (inv.fits small) more,
          arrived_packed (by unfold arrivedMask at small; omega)]
        exact Nat.succ_ne_zero _
      rw [if_neg (by simpa using after)]
      exact tallied.arrive inv small moved arrives more
    · have after : arrived half next.word = 0 := by
        rw [arrives.word, inv.count.word, arriveNext_completing (inv.fits small) last,
          arrived_packed (Nat.two_pow_pos half)]
      rw [if_pos (by simpa using after)]
      exact tallied.complete inv small moved arrives last
  · rw [seen]
    exact tallied.withdraw inv small bounded moved withdraws source
  · rw [seen]
    exact tallied.quiet moved quiet

end

end Tally

/-- The rounds, in whatever order the leaders drain. -/
theorem counted_of_reachable {half n : ℕ} {state : State ι}
    (reach : (machine ι half n).ReachableBy (fun _ _ next => NoWrap half next) state) :
    Rounds half (coreSize n) False state ∧ NoWrap half state := by
  refine reach.invariant (fun state => Rounds half (coreSize n) False state ∧ NoWrap half state) ?_
    ?_
  · rintro _ ⟨-, rfl⟩
    exact ⟨rounds_start (coreSize_pos n), (fun _ => never)⟩
  · rintro state label next before ⟨inv, bounded⟩ stepped wraps
    exact ⟨step_rounds inv (waiting_of_reachable before) (fits_of_reachable before) bounded
      (by rintro ⟨⟩) stepped, wraps⟩

theorem tallied_of_registered {half n : ℕ} {state : State ι} {register : Register}
    (reach : RegisteredRuns half n state register) : Tallied half (coreSize n) state register := by
  refine System.ReachableBy.observed (Tallied half (coreSize n)) ?_ ?_ reach
  · rintro _ ⟨-, rfl⟩
    refine ⟨?_, (by rintro _ ⟨⟩), fun _ _ => ⟨rfl, rfl⟩, fun _ _ => rfl, (fun _ => never)⟩
    simp [Register.new, start, arrived]
  · intro state register label next before tallied stepped _
    obtain ⟨inv, bounded⟩ := counted_of_reachable before
    exact tallied.step inv (waiting_of_reachable before) (fits_of_reachable before) bounded stepped

/-! ### No wait returns early -/

section Returns

variable {half n : ℕ} {state : State ι} {party : ι} {register : Register}

theorem pollReport_follower {value : SignalValue} {outcome : Outcome} :
    pollReport value = some outcome → outcome ≠ .polledAfterCompletion → outcome = .follower := by
  cases value <;> cases outcome <;> decide

/-- A poll that reports `follower` found a value that only the leader of its round writes. -/
theorem Rounds.poll_over (inv : Rounds half n False state) (waiting : Waiting state)
    (waits : waitsAt (state.pc party) (state.value party) = valueWaits (state.value party))
    (returns : pollReport (state.value party) = some .follower) :
    state.round party < state.rounds := by
  have signalled : valueWaits (state.value party) = true ∧ (state.value party).isFinal = true := by
    revert returns
    cases state.value party <;>
      simp [pollReport, SignalValue.reachesAll, valueWaits, SignalValue.isFinal]
  exact inv.signalled_over waiting (waits.trans signalled.1) signalled.2

theorem returns_over {label : Label ι} {outcome : Outcome} (tallied : Tallied half n state register)
    (inv : Rounds half n False state) (waiting : Waiting state)
    (reports : reportOf state label = some outcome) (returns : outcome ≠ .polledAfterCompletion) :
    state.round label.1 < state.rounds := by
  obtain ⟨party, move⟩ := label
  have polled (report : pollReport (state.value party) = some outcome) :
      pollReport (state.value party) = some .follower := pollReport_follower report returns ▸ report
  have releases (leads : releasesAt (state.pc party) = true) : state.round party < state.rounds :=
    tallied.released party leads
  have parked (waits : waitsAt (state.pc party) (state.value party) = true)
      (report : (if (state.value party).reachesAll then some Outcome.follower else none) = some
      outcome) : state.round party < state.rounds := by
    refine inv.signalled_over waiting waits (reachesAll_isFinal ?_)
    by_contra short
    rw [if_neg short] at report
    cases report
  cases move <;> cases source : state.pc party <;>
    simp only [reportOf, source, reduceCtorEq] at reports
  case poll.future =>
    refine inv.poll_over waiting (by rw [source]; rfl) (polled ?_)
    split at reports
    · cases reports
    · exact reports
  case advance.releaseLock => exact releases (by rw [source]; rfl)
  case advance.releaseUnlock => exact releases (by rw [source]; rfl)
  case advance.releasePublish => exact releases (by rw [source]; rfl)
  case advance.enqueueUnlock mode enqueued =>
    cases enqueued
    · exact (inv.known party).completed (by rw [source]; rfl)
    · cases reports
  case advance.waitSwap => exact parked (by rw [source]; rfl) reports
  case advance.waitPark => exact parked (by rw [source]; rfl) reports
  case advance.rearmLoad =>
    refine inv.poll_over waiting (by rw [source]; rfl) (polled ?_)
    split at reports
    · exact reports
    · cases reports

end Returns

/-! ### The rounds are exact -/

/-- **The rounds of a barrier of `n` parties are exact.** -/
structure Exact (half n : ℕ) (state : State ι) (register : Register) : Prop where
  /-- The low half counts the arrivals of the current round that were not taken back. -/
  low : register.arrived state.rounds = register.withdrawn state.rounds + arrived half state.word
  below : arrived half state.word < n
  /-- The high half counts the completed rounds. -/
  high : generation half state.word = state.rounds % 2 ^ half
  /-- A completed round had `n` arrivals that were not taken back, and one leader. -/
  completed : ∀ round < state.rounds,
    register.arrived round = register.withdrawn round + n ∧ register.leaders round = 1
  /-- The current round has no leader yet. -/
  forming : register.leaders state.rounds = 0
  /-- No wait returns before its round has completed. -/
  returns : ∀ label next, step half n state label = some next →
    next.outcome = reported state.outcome label.1 (reportOf state label) ∧
    ∀ outcome, reportOf state label = some outcome → outcome ≠ .polledAfterCompletion →
      state.round label.1 < state.rounds

/-- **Every round counts exactly its parties**, for every size that fits into the low half, any
number of parties and any interleaving of arrivals, enqueues, releases and drops. -/
theorem rounds_exact {half n : ℕ} (positive : 1 ≤ n) {state : State ι} {register : Register}
    (reach : RegisteredRuns half n state register) : Exact half n state register := by
  have size : coreSize n = n := if_neg (by omega)
  obtain ⟨inv, -⟩ := counted_of_reachable reach.unobserved
  have tallied := tallied_of_registered reach
  have small := fits_of_reachable reach.unobserved
  rw [size] at inv tallied small
  exact {
    low := tallied.current
    below := by rw [inv.count.word, arrived_packed (inv.fits small)]; exact inv.count.below
    high := by rw [inv.count.word, generation_packed (inv.fits small)]
    completed := tallied.completed
    forming := tallied.unled state.rounds le_rfl
    returns := fun _ _ stepped => ⟨step_outcome stepped, fun _ reports returns =>
      returns_over tallied inv (waiting_of_reachable reach.unobserved) reports returns⟩ }

/-- A barrier of two and four futures. `a` and `b` make the first round; `c` parks for the second
one and is dropped, and `d` arrives after that. -/
def dropping {ι : Type} (a b c d : ι) : List (Label ι) :=
  pollFor a 6 ++ pollFor b 7 ++ pollFor c 6 ++ [(c, .drop)] ++ List.replicate 5
    (c, .advance) ++ pollFor d 2

/-- In the second round two arrived, one of them was taken back, and the word counts one. -/
theorem rounds_exact_dropping : ∃ (state : State (Fin 4)) (register : Register),
    RegisteredRuns 32 2 state register ∧ state.rounds = 1 ∧ register.arrived 1 = 2 ∧
    register.withdrawn 1 = 1 ∧ Exact 32 2 state register := by
  obtain ⟨state, register, reach, ended⟩ := System.exists_observedBy_of_run (machine (Fin 4) 32 2)
    Register.new observe (fun _ _ next => decide (NoWrap 32 next))
    (fun state register => decide (state.rounds = 1 ∧ register.arrived 1 = 2 ∧
      register.withdrawn 1 = 1))
    ⟨by decide, rfl⟩ (dropping 0 1 2 3) (by decide +kernel)
  have registered : RegisteredRuns 32 2 state register :=
    reach.mono fun _ _ _ passed => of_decide_eq_true passed
  obtain ⟨rounds, arrived, withdrawn⟩ := of_decide_eq_true ended
  exact ⟨state, register, registered, rounds, arrived, withdrawn,
    rounds_exact (by decide) registered⟩

end Xutex.Barrier
