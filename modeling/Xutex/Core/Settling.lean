/-
**Settling: without new calls a primitive and its sleepers come to a standstill.**

A call repeats a step for two reasons. It waits in a spin loop, and a round of that changes nothing;
or its CAS has failed, and then somebody else has changed the word. So the primitives have a rank
that every other step lowers (`Descent`), and with the calls that the signalers owe the same holds
for their sleepers.

* `Settles` — from here every run without new calls is constant from some point on, whatever the
  order of its steps, and where it cannot be continued is a standstill. That is not termination of
  the calls: at the standstill a call may be left in `park`, in a loop whose rounds change nothing,
  or in a drop that waits for its signal. Which of these can be left there is what
  `Halting.Sound.halted` says.
* `Alarm.unsettled` — the calls that are owed, the park tokens and the threads that are awake.
* `Halting.Descent.settles` — **a primitive with a rank settles.**
* `Pace` — the ranks of the primitives: the work that is left, then the retries. `Pace.Step` lists
  what a step can be.
-/

import Xutex.Concurrency.Ranking
import Xutex.Core.Standstill

set_option linter.unusedSectionVars false

namespace Xutex

open Concurrency Relation

/-! ### What is left to the alarm -/

section Alarm

variable {ι : Type} [DecidableEq ι] [Fintype ι]

/-- How many parties there are of a kind. -/
def headcount (kind : ι → Bool) : ℕ := ∑ party, (kind party).toNat

theorem headcount_update (kind : ι → Bool) (party : ι) (value : Bool) :
    headcount (Function.update kind party value) + (kind party).toNat =
      headcount kind + value.toNat := by
  have exchange := @sum_exchange ι _ _ (fun other => (kind other).toNat)
    (fun other => (Function.update kind party value other).toNat) party fun other different => by
      rw [Function.update_of_ne different]
  simpa [headcount] using exchange

/-- The steps that the alarm still makes possible. -/
def Alarm.unsettled (alarm : Alarm ι) : ℕ :=
  4 * headcount (fun party => (alarm.owes party).isSome) + 2 * headcount alarm.token +
    headcount alarm.awake

variable {alarm : Alarm ι} {party : ι}

/-- A call is made: it costs more than the token it may leave. -/
theorem Alarm.unsettled_deliver {target : Target ι} (owed : alarm.owes party = some target) :
    (alarm.deliver party target).unsettled < alarm.unsettled := by
  have paid := headcount_update (fun other => (alarm.owes other).isSome) party false
  have cleared : (fun other => (Function.update alarm.owes party none other).isSome) =
      Function.update (fun other => (alarm.owes other).isSome) party false := by
    ext other
    by_cases self : other = party
    · subst self
      simp
    · simp [self]
  simp only [owed, Option.isSome_some, Bool.toNat_true, Bool.toNat_false] at paid
  cases target with
  | thread thread =>
    have told := headcount_update alarm.token thread true
    have fits := Bool.toNat_le (alarm.token thread)
    simp only [deliver, owe, setToken, unsettled, cleared]
    rw [Bool.toNat_true] at told
    omega
  | task waker =>
    simp only [deliver, owe, wake, unsettled, cleared]
    omega

/-- `park` returns with the token. -/
theorem Alarm.unsettled_unpark (asleep : alarm.awake party = false)
    (token : alarm.token party = true) :
    ((alarm.setToken party false).setAwake party true).unsettled < alarm.unsettled := by
  have spent := headcount_update alarm.token party false
  have returned := headcount_update alarm.awake party true
  simp only [token, asleep, Bool.toNat_true, Bool.toNat_false] at spent returned
  simp only [setToken, setAwake, unsettled]
  omega

/-- A thread parks again. -/
theorem Alarm.unsettled_again (awake : alarm.awake party = true) :
    (alarm.setAwake party false).unsettled < alarm.unsettled := by
  have parked := headcount_update alarm.awake party false
  simp only [awake, Bool.toNat_true, Bool.toNat_false] at parked
  simp only [setAwake, unsettled]
  omega

end Alarm

/-! ### A primitive with a rank -/

variable {State ι Pc Move : Type} [DecidableEq ι] {sleeping : Sleeping State ι Pc Move}

namespace Sleeping

/-- A step that is no new call changes something. -/
abbrev Progress (halting : Halting sleeping) (pair next : State × Alarm ι) : Prop :=
  sleeping.machine.Progress (GoesOn halting.internal) pair next

/-- **From here the primitive and its sleepers come to a standstill**, as long as no new call
begins. -/
structure Settles (halting : Halting sleeping) (pair : State × Alarm ι) : Prop where
  /-- Every run is constant from some point on: only rounds of spin loops are left. -/
  finite : ∀ run : ℕ → State × Alarm ι, run 0 = pair →
    (∀ k, run (k + 1) = run k ∨ Progress halting (run k) (run (k + 1))) → ∃ k, ∀ m, k ≤ m →
    run m = run k
  /-- Where nothing changes any more is a standstill. -/
  ends : ∀ last, ReflTransGen (Progress halting) pair last → (∀ next, ¬Progress halting last next) →
    Standstill halting last
  reaches : ∃ last, ReflTransGen (Progress halting) pair last ∧ Standstill halting last

end Sleeping

namespace Halting

variable (halting : Halting sleeping)

/-- **What a primitive proves of its rank**, in the states that satisfy an invariant. -/
structure Descent {α : Type} [LT α] (rank : State → α) (Holds : State → Prop) : Prop where
  quiet : ∀ {move}, halting.internal move = true → sleeping.polls move = none
  reloadsGo : ∀ {pc}, sleeping.reloads pc = true → halting.halt pc = .goes
  /-- A step that changes nothing is a round of a spin loop. -/
  spun : ∀ {state party move}, Holds state → halting.internal move = true →
    sleeping.core.step state (party, move) = some state → halting.halt (sleeping.pc state party) =
      .spins
  descends : ∀ {state party move next}, Holds state → halting.internal move = true →
    sleeping.core.step state (party, move) = some next → next = state ∨ rank next < rank state
  keeps : ∀ {state party move next}, Holds state → halting.internal move = true →
    sleeping.core.step state (party, move) = some next → Holds next

variable {halting} {α : Type} [LT α] {rank : State → α} {Holds : State → Prop}
  {pair next : State × Alarm ι} {label : Sleeping.Label ι Move}

/-- A round of a spin loop leaves the alarm alone. -/
theorem Descent.note_of_spun (descent : halting.Descent rank Holds) {state : State} {party : ι}
    {move : Move}
    (internal : halting.internal move = true)
    (spins : halting.halt (sleeping.pc state party) = .spins)
    (alarm : Alarm ι) : sleeping.note alarm state (party, move) = alarm := by
  have chain : sleeping.discipline.chain (sleeping.pc state party) = [] := by
    by_contra busy
    cases spins.symm.trans (halting.signalerGoes busy)
  have takes : sleeping.takes (sleeping.pc state party) = none := by
    cases taken : sleeping.takes (sleeping.pc state party) with
    | none => rfl
    | some node => exact absurd (sleeping.takesChain taken) (by simp [chain])
  have publishes : sleeping.publishes (sleeping.pc state party) = none := by
    cases published : sleeping.publishes (sleeping.pc state party) with
    | none => rfl
    | some node => exact absurd (sleeping.publishesChain published) (by simp [chain])
  have reloads : sleeping.reloads (sleeping.pc state party) = false := by
    by_contra loads
    cases spins.symm.trans (descent.reloadsGo (Bool.not_eq_false _ ▸ loads))
  have upright : sleeping.roleAt (sleeping.pc state party) ≠ .parked := fun parked => by
    cases spins.symm.trans (halting.parkedParks.mp parked)
  simp [Sleeping.note, descent.quiet internal, takes, publishes, reloads, upright]

variable [Fintype ι]

/-- **What a step that is no new call can do**: the primitive goes on, or the alarm settles. -/
theorem goesOn_cases {state : State} {alarm : Alarm ι}
    (goesOn : Sleeping.GoesOn halting.internal label)
    (stepped : sleeping.machine.step (state, alarm) label = some next) :
    (∃ party move after, label = .move (party, move) ∧ halting.internal move = true ∧
      sleeping.core.step state (party, move) = some after ∧
      next = (after, sleeping.note alarm state (party, move))) ∨
    ∃ alarm' : Alarm ι, next = (state, alarm') ∧ alarm'.unsettled < alarm.unsettled := by
  change sleeping.step (state, alarm) label = some next at stepped
  cases label <;> simp only [Sleeping.step] at stepped
  case move label =>
    split at stepped
    · obtain ⟨after, moved, rfl⟩ := Option.map_eq_some_iff.mp stepped
      exact .inl ⟨label.1, label.2, after, rfl, goesOn, moved, rfl⟩
    · cases stepped
  case wake party =>
    obtain ⟨target, owed, rfl⟩ := Option.map_eq_some_iff.mp stepped
    exact .inr ⟨_, rfl, Alarm.unsettled_deliver owed⟩
  case unpark party =>
    split at stepped
    · rename_i ready
      exact .inr ⟨_, (Option.some.inj stepped).symm, Alarm.unsettled_unpark ready.2.1 ready.2.2⟩
    · cases stepped
  case again party =>
    split at stepped
    · rename_i ready
      exact .inr ⟨_, (Option.some.inj stepped).symm, Alarm.unsettled_again ready.2.1⟩
    · cases stepped
  all_goals exact goesOn.elim

/-- What goes on without new calls is a run of the primitive. -/
theorem reachable_of_progress (reach : sleeping.core.Reachable pair.1)
    (run : ReflTransGen (Sleeping.Progress halting) pair next) :
    sleeping.core.Reachable next.1 := by
  induction run with
  | refl => exact reach
  | tail _ progress before =>
    obtain ⟨-, label, goesOn, stepped⟩ := progress
    rcases goesOn_cases goesOn stepped with ⟨party, move, after, -, -, moved, rfl⟩ | ⟨alarm', rfl,
      -⟩
    · exact before.step moved trivial
    · exact before

/-- The sleepers keep the invariant of the primitive. -/
theorem Descent.kept (descent : halting.Descent rank Holds) (holds : Holds pair.1)
    (progress : Sleeping.Progress halting pair next) : Holds next.1 := by
  obtain ⟨-, label, goesOn, stepped⟩ := progress
  rcases goesOn_cases goesOn stepped with ⟨party, move, after, -, internal, moved, rfl⟩
    | ⟨alarm', rfl, -⟩
  · exact descent.keeps holds internal moved
  · exact holds

/-- **Where nothing changes any more is a standstill.** -/
theorem Descent.standstill (descent : halting.Descent rank Holds) (holds : Holds pair.1)
    (ended : ∀ next, ¬Sleeping.Progress halting pair next) : Sleeping.Standstill halting pair := by
  intro label next goesOn stepped
  obtain rfl : next = pair := by
    by_contra changed
    exact ended next ⟨changed, label, goesOn, stepped⟩
  refine ⟨rfl, ?_⟩
  obtain ⟨state, alarm⟩ := next
  rcases goesOn_cases goesOn stepped with ⟨party, move, after, rfl, internal, moved, same⟩
    | ⟨alarm', same, less⟩
  · obtain rfl : state = after := (Prod.mk.inj same).1
    exact ⟨party, move, rfl, descent.spun holds internal moved⟩
  · obtain rfl : alarm = alarm' := (Prod.mk.inj same).2
    exact absurd less (lt_irrefl _)

/-- The rank of the primitive, then what is left to the alarm. -/
def pairRank (rank : State → α) (pair : State × Alarm ι) :
    α ×ₗ ℕ := toLex (rank pair.1, pair.2.unsettled)

/-- **Every step lowers the rank, or changes nothing.** -/
theorem Descent.descends_pair (descent : halting.Descent rank Holds) (holds : Holds pair.1)
    (goesOn : Sleeping.GoesOn halting.internal label)
    (stepped : sleeping.machine.step pair label = some next) :
    next = pair ∨ pairRank rank next < pairRank rank pair := by
  obtain ⟨state, alarm⟩ := pair
  rcases goesOn_cases goesOn stepped with ⟨party, move, after, -, internal, moved, rfl⟩
    | ⟨alarm', rfl, less⟩
  · rcases descent.descends holds internal moved with rfl | less
    · left
      rw [descent.note_of_spun internal (descent.spun holds internal moved)]
    · exact .inr (Prod.Lex.toLex_lt_toLex.mpr (.inl less))
  · exact .inr (Prod.Lex.toLex_lt_toLex.mpr (.inr ⟨rfl, less⟩))

/-- **A primitive with a rank settles.** -/
theorem Descent.settles [WellFoundedLT (α ×ₗ ℕ)] (descent : halting.Descent rank Holds)
    (holds : Holds pair.1) : Sleeping.Settles halting pair := by
  have founded : WellFounded fun next (pair : State × Alarm ι) => Holds pair.1 ∧
      Sleeping.Progress halting pair next :=
    System.wellFounded_progress (pairRank rank) fun _ _ _ => descent.descends_pair
  have kept (pair next : State × Alarm ι) : Holds pair.1 → Sleeping.Progress halting pair next →
      Holds next.1 :=
    descent.kept
  have ends (last : State × Alarm ι) (run : ReflTransGen (Sleeping.Progress halting) pair last)
      (ended : ∀ next, ¬Sleeping.Progress halting last next) :
      Sleeping.Standstill halting last := by
    suffices Holds last.1 from descent.standstill this ended
    clear ended
    induction run with
    | refl => exact holds
    | tail _ progress before => exact kept _ _ before progress
  refine ⟨fun run starts steps => ?_, ends, ?_⟩
  · exact System.eventually_constant founded kept run (starts ▸ holds) steps
  · obtain ⟨last, run, ended⟩ := System.exists_end founded kept pair holds
    exact ⟨last, run, ends last run ended⟩

end Halting

/-! ### Ranks of the parties -/

/-- What a primitive says about the length of its calls. -/
structure Pace (sleeping : Sleeping State ι Pc Move) where
  /-- The work that what is shared is going to cost. -/
  cost : State → ℕ
  /-- What is left of a call, retries apart. -/
  work : Pc → ℕ
  /-- How far a call is from doing a piece of work, as long as nobody else does one. -/
  retries : State → Pc → ℕ

namespace Pace

variable (pace : Pace sleeping)

/-- The work of all, then the retries of all. -/
def rank [Fintype ι] (state : State) : ℕ ×ₗ ℕ :=
  partyRank (pace.cost state) (fun party => pace.work (sleeping.pc state party))
    fun party => pace.retries state (sleeping.pc state party)

/-- What there is to do before the step and after it, for the party and for what is shared. -/
abbrev left (state : State) (party : ι) : ℕ := pace.cost state + pace.work (sleeping.pc state party)

/-- **What a step of the party can be**: a round of a spin loop, a piece of work, or less of a
retry. -/
inductive Step [Fintype ι] (halting : Halting sleeping) (state next : State) (party : ι) : Prop
  | spins (same : next = state) (spins : halting.halt (sleeping.pc state party) = .spins)
  | works (rest : ∀ other, other ≠ party → sleeping.pc next other = sleeping.pc state other)
      (less : pace.left next party < pace.left state party)
  | retries (rest : ∀ other, other ≠ party → sleeping.pc next other = sleeping.pc state other)
      (same : pace.left next party = pace.left state party)
      (less : ∑ other, pace.retries next (sleeping.pc next other) < ∑ other,
        pace.retries state (sleeping.pc state other))

variable {pace} [Fintype ι] {halting : Halting sleeping} {state next : State} {party : ι}

variable {here pc : Pc} (source : sleeping.pc state party = here)
  (moved : sleeping.pc next = Function.update (sleeping.pc state) party pc)

section

include source moved

/-- The party goes on, and has done a piece of work. -/
theorem Step.work (less : pace.cost next + pace.work pc < pace.cost state + pace.work here) :
    pace.Step halting state next party := by
  refine .works (fun other different => by rw [moved, Function.update_of_ne different]) ?_
  rw [left, left, moved, Function.update_self, source]
  exact less

/-- The party retries, and leaves what is shared as it is. -/
theorem Step.retry (cost : pace.cost next = pace.cost state) (same : pace.work pc = pace.work here)
    (shared : pace.retries next = pace.retries state)
    (less : pace.retries state pc < pace.retries state here) :
    pace.Step halting state next party := by
  have rest (other : ι) (different : other ≠ party) :
      sleeping.pc next other = sleeping.pc state other := by
    rw [moved, Function.update_of_ne different]
  refine .retries rest ?_ ?_
  · rw [left, left, moved, Function.update_self, source, cost, same]
  · have exchange := @sum_exchange ι _ _ (fun other => pace.retries state (sleeping.pc state other))
      (fun other => pace.retries next (sleeping.pc next other)) party fun other different => by
        rw [shared, rest other different]
    simp only [shared, moved, Function.update_self, source] at exchange ⊢
    omega

end

theorem Step.descends (step : pace.Step halting state next party) : next = state ∨
    pace.rank next < pace.rank state := by
  cases step with
  | spins same => exact .inl same
  | works rest less =>
    refine .inr (partyRank_lt_of_work party (fun other different => ?_) less)
    rw [rest other different]
  | retries rest same less =>
    refine .inr (partyRank_lt_of_retry party (fun other different => ?_) same less)
    rw [rest other different]

theorem Step.spun (step : pace.Step halting state state party) :
    halting.halt (sleeping.pc state party) = .spins := by
  cases step with
  | spins _ spins => exact spins
  | works _ less => exact absurd less (lt_irrefl _)
  | retries _ _ less => exact absurd less (lt_irrefl _)

variable (pace) in
/-- **A primitive all of whose steps are of these kinds settles.** -/
theorem settles {alarm : Alarm ι} (Holds : State → Prop)
    (quiet : ∀ {move}, halting.internal move = true → sleeping.polls move = none)
    (reloadsGo : ∀ {pc}, sleeping.reloads pc = true → halting.halt pc = .goes)
    (steps : ∀ {state party move next}, Holds state → halting.internal move = true →
      sleeping.core.step state (party, move) = some next → pace.Step halting state next party)
    (keeps : ∀ {state party move next}, Holds state → halting.internal move = true →
      sleeping.core.step state (party, move) = some next → Holds next)
    (holds : Holds state) : Sleeping.Settles halting (state, alarm) := by
  have descent : halting.Descent pace.rank Holds :=
    ⟨quiet, reloadsGo, fun holds internal stepped => (steps holds internal stepped).spun,
      fun holds internal stepped => (steps holds internal stepped).descends, keeps⟩
  exact descent.settles holds

end Pace

end Xutex
