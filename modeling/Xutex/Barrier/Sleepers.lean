/-
**The barrier and its sleepers: nobody sleeps through the end of its round.**

`sleeping` declares what the program points of the barrier mean for the waker slots, and every step
is one of the turns that `Sleepers` allows. A drop waits for its signal when its node was not in the
queue, or when its round is over and the node has to be popped (`stays`), so the rounds of the
barrier are needed here.
-/

import Xutex.Barrier.Exact
import Xutex.Core.Sleepers

set_option linter.unusedSectionVars false

namespace Xutex.Barrier

open Concurrency Discipline Sleeping

variable {ι : Type} [DecidableEq ι]

/-! ### The declared program points -/

/-- A poll carries its waker through `arrive`. -/
def arrivalRole : Mode → NodeRole
  | .wait => .apart
  | .poll waker => .polling waker

def roleAt : Pc ι → NodeRole
  | .arriveLoad mode | .arriveCas mode _ => arrivalRole mode
  | .enqueueLock mode _ | .enqueueFresh mode _ | .enqueuePush mode _ => .armed mode
  | .enqueueUnlock mode true => .linked mode
  | .waitSwap => .thread
  | .waitPark => .parked
  | .future => .rest
  | .rearmRegister waker => .register waker
  | .rearmLoad waker => .reload (some waker)
  | .removeUnlock false | .dropSpin => .gone
  | _ => .apart

def takesSlotAt : Pc ι → Option ι
  | .releaseTake _ node _ => some node
  | _ => none

def publishesValueAt : Pc ι → Option ι
  | .releasePublish _ node _ => some node
  | _ => none

def registersAt : Pc ι → Option Waker
  | .rearmRegister waker => some waker
  | _ => none

def pollsWith : Move → Option Waker
  | .poll waker => some waker
  | _ => none

/-- Only the loop around `park` parks. -/
theorem eq_waitPark {pc : Pc ι} (parked : roleAt pc = .parked) : pc = .waitPark := by
  cases pc
  case arriveLoad mode | arriveCas mode _ => cases mode <;> cases parked
  case enqueueUnlock mode enqueued => cases mode <;> cases enqueued <;> cases parked
  case removeUnlock found => cases found <;> cases parked
  all_goals first | rfl | cases parked

theorem armed_free {pc : Pc ι} {mode : Mode} (value : SignalValue)
    (armed : roleAt pc = .armed mode) : waitsAt pc value = false := by
  cases pc
  case arriveLoad mode | arriveCas mode _ => rfl
  case enqueueUnlock mode enqueued => cases mode <;> cases enqueued <;> cases armed
  case removeUnlock found => cases found <;> cases armed
  all_goals first | rfl | cases armed

theorem gone_waits {pc : Pc ι} (value : SignalValue) (gone : roleAt pc = .gone) :
    waitsAt pc value = true := by
  cases pc
  case arriveLoad mode | arriveCas mode _ => cases mode <;> cases gone
  case enqueueUnlock mode enqueued => cases mode <;> cases enqueued <;> cases gone
  case removeUnlock found =>
    cases found with
    | false => rfl
    | true => cases gone
  all_goals first | rfl | cases gone

theorem signaler_apart {pc : Pc ι} (busy : chainOf pc ≠ []) : roleAt pc = .apart := by
  cases pc <;> first | rfl | exact absurd rfl busy

/-- **The barrier with its sleepers.** -/
def sleeping (ι : Type) [DecidableEq ι] (half n : ℕ) : Sleeping (State ι) ι (Pc ι) Move where
  core := machine ι half n
  discipline := discipline
  signal := State.signal
  pc := State.pc
  advance := .advance
  polls := pollsWith
  roleAt := roleAt
  shows state queue := queue = state.queue
  -- a node whose round is over is popped by the leader of that round
  stays state party := party ∈ state.queue.entries ∧ state.round party = state.rounds
  takes := takesSlotAt
  publishes := publishesValueAt
  registers := registersAt
  takesChain {pc node} takes := by
    cases pc <;> simp_all [takesSlotAt, discipline, chainOf]
  publishesChain {pc node} publishes := by
    cases pc <;> simp_all [publishesValueAt, discipline, chainOf]
  takesOnly {pc node} takes := by
    cases pc <;> simp_all [takesSlotAt, publishesValueAt]
  armedFree := armed_free
  signalerApart := signaler_apart
  goneWaits := gone_waits
  advanceQuiet := rfl

/-! ### Every step is a turn -/

section Turned

variable {half n : ℕ} {state next : State ι} {party : ι} {pc : Pc ι} {mode : Mode}

/-- The step is a turn of `party`, made by the move `move`. -/
abbrev TurnedBy (half n : ℕ) (state next : State ι) (party : ι) (move : Move) : Prop :=
  (sleeping ι half n).Turned state next (party, move)

/-- The program point neither takes a slot nor publishes a value. -/
abbrev Silent (pc : Pc ι) : Prop := takesSlotAt pc = none ∧ publishesValueAt pc = none

theorem arrivalRole_upright (mode : Mode) : arrivalRole mode ≠ .parked := by
  cases mode <;> exact NodeRole.noConfusion

theorem arriving_turned {pc' : Pc ι} (source : state.pc party = pc) (silent : Silent pc)
    (role : roleAt pc = arrivalRole mode) (silent' : publishesValueAt pc' = none)
    (role' : roleAt pc' = arrivalRole mode)
    (free' : ∀ value, waitsAt pc' value = false) :
    TurnedBy half n state (state.goto party pc') party .advance := by
  refine .goto source rfl rfl ⟨silent.1, silent.2, silent'⟩ ?_
  show (sleeping ι half n).Turn _ _ _ _ _ _ (roleAt pc) (roleAt pc')
  rw [role, role']
  exact .same rfl (arrivalRole_upright mode) rfl rfl fun given => never ((free' _).symm.trans given)

theorem arriveCas_turned {cur : ℕ} (source : state.pc party = .arriveCas mode cur) :
    TurnedBy half n state (arriveCas half (coreSize n) state party mode cur) party .advance := by
  unfold arriveCas
  split
  · dsimp only
    split
    · cases mode with
      | wait => exact .goto source rfl rfl ⟨rfl, rfl, rfl⟩ .apart
      | poll waker => exact .own source rfl rfl ⟨rfl, rfl, rfl⟩ .apart
    · cases mode with
      | wait => exact .own source rfl rfl ⟨rfl, rfl, rfl⟩ (.armThread rfl)
      | poll waker => exact .own source rfl rfl ⟨rfl, rfl, rfl⟩ (.armTask rfl (storeAsync_slot _ _))
  · exact arriving_turned source ⟨rfl, rfl⟩ rfl rfl rfl fun _ => rfl

section

variable (waiting : Waiting state)
include waiting

/-- A leader that returns has a complete future, or none. -/
theorem releaseReturn_turned {queue : WaitQueue ι} (source : state.pc party = pc)
    (silent : Silent pc) (complete : ownValue pc = leaderValue mode) :
    TurnedBy half n state (releaseReturn { state with queue := queue } party mode)
      party .advance := by
  obtain ⟨-, -, free, -⟩ := resume_free waiting source complete
  cases mode with
  | wait => exact .apart source rfl rfl ⟨silent.1, silent.2, rfl⟩ rfl
  | poll waker => exact .goto source rfl rfl ⟨silent.1, silent.2, rfl⟩ (.done free)

theorem releaseLock_turned {expected : ℕ} (source : state.pc party = .releaseLock mode expected)
    (stepped : releaseLock state party mode expected = some next) :
    TurnedBy half n state next party .advance := by
  unfold releaseLock at stepped
  split at stepped <;> cases stepped
  · exact releaseReturn_turned waiting source ⟨rfl, rfl⟩ rfl
  · exact .apart source rfl rfl ⟨rfl, rfl, rfl⟩ rfl

theorem releaseUnlock_turned {chain : List ι}
    (source : state.pc party = .releaseUnlock mode chain) :
    TurnedBy half n state (releaseNext { state with queue := state.queue.unlock } party mode chain)
      party .advance := by
  cases chain with
  | nil => exact releaseReturn_turned waiting source ⟨rfl, rfl⟩ rfl
  | cons node rest => exact .apart source rfl rfl ⟨rfl, rfl, rfl⟩ rfl

theorem releasePublish_turned {node : ι} {rest : List ι}
    (source : state.pc party = .releasePublish mode node rest) :
    TurnedBy half n state (releasePublish state party mode node rest) party .advance := by
  have own : party ≠ node := (waiting.publishes source rfl).1.symm
  cases rest with
  | nil =>
    obtain ⟨-, -, free, -⟩ := resume_free waiting source rfl
    cases mode with
    | wait => exact .publish source rfl rfl rfl rfl rfl rfl rfl .apart
    | poll waker =>
      refine .publish source rfl rfl rfl rfl rfl rfl rfl (.done ?_)
      show valueWaits (Function.update state.signal node _ party).value = false
      rw [Function.update_of_ne own]
      exact free
  | cons other rest => exact .publish source rfl rfl rfl rfl rfl rfl rfl .apart

theorem enqueuePush_turned {expected : ℕ} (source : state.pc party = .enqueuePush mode expected) :
    TurnedBy half n state (enqueuePush state party mode expected) party .advance := by
  have value : (state.signal party).value = armedValue mode :=
    waiting.owned party _ (congrArg ownValue source)
  refine .own source rfl rfl ⟨rfl, rfl, rfl⟩ (.push rfl rfl ?_)
  rw [Signal.setAux_value]
  exact value ▸ armedValue_unsignalled mode

end

theorem enqueueUnlock_turned {enqueued : Bool}
    (source : state.pc party = .enqueueUnlock mode enqueued) :
    TurnedBy half n state (enqueueUnlock state party mode enqueued) party .advance := by
  cases mode <;> cases enqueued
  case wait.false => exact .apart source rfl rfl ⟨rfl, rfl, rfl⟩ rfl
  case wait.true =>
    exact .goto source rfl rfl ⟨rfl, rfl, rfl⟩ (.same rfl NodeRole.noConfusion rfl rfl fun _ => rfl)
  case poll.false => exact .own source rfl rfl ⟨rfl, rfl, rfl⟩ (.done rfl)
  case poll.true =>
    exact .goto source rfl rfl ⟨rfl, rfl, rfl⟩ (.same rfl NodeRole.noConfusion rfl rfl id)

/-- A node that is given away and was not signalled with `SIGNAL_ALL` was not signalled. -/
theorem fresh_of_not_reachesAll (waiting : Waiting state)
    (given : waitsAt (state.pc party) (state.signal party).value = true)
    (short : ¬(state.signal party).value.reachesAll = true) :
    (state.signal party).value.isFinal = false := by
  by_contra final
  rw [Bool.not_eq_false] at final
  have signalled := of_decide_eq_true (waiting.signalled party given final)
  rw [show (state.signal party).value = .all from signalled] at short
  exact short rfl

theorem waitSwap_turned (waiting : Waiting state) (source : state.pc party = .waitSwap) :
    TurnedBy half n state (waitSwap state party) party .advance := by
  unfold waitSwap
  dsimp only
  split
  · exact .own source rfl rfl ⟨rfl, rfl, rfl⟩ .apart
  · rename_i short
    have fresh := fresh_of_not_reachesAll waiting (by rw [source]; rfl) short
    exact .own source rfl rfl ⟨rfl, rfl, rfl⟩ (.sleep rfl rfl fresh rfl)

/-- The end of `poll` on a value that it has read: the future is complete, or the poll arrives. -/
theorem pollValue_turned {waker : Waker} {move : Move} (source : state.pc party = pc)
    (silent : Silent pc)
    (arrives : (sleeping ι half n).Turn pc (.arriveLoad (.poll waker)) (state.signal party)
      (state.signal party)
      (party ∈ state.queue.entries ∧ state.round party = state.rounds) (pollsWith move) (roleAt pc)
      (.polling waker)) :
    TurnedBy half n state (pollValue state party waker (state.signal party).value) party move := by
  unfold pollValue
  split
  · split
    · rename_i returned
      refine .goto source rfl rfl ⟨silent.1, silent.2, rfl⟩ (.done ?_)
      show valueWaits (state.signal party).value = false
      rw [returned]
      rfl
    · exact .own source rfl rfl ⟨silent.1, silent.2, rfl⟩ (.done rfl)
  · exact .goto source rfl rfl ⟨silent.1, silent.2, rfl⟩ arrives

theorem poll_turned {waker : Waker} (source : state.pc party = .future) :
    TurnedBy half n state (poll state party waker) party (.poll waker) := by
  unfold poll
  split
  · rename_i waiting
    exact .goto source rfl rfl ⟨rfl, rfl, rfl⟩
      (.looks (.inl ⟨rfl, rfl⟩) (congrArg SignalValue.isFinal waiting) rfl id)
  · exact pollValue_turned source ⟨rfl, rfl⟩ (.begins rfl rfl never)

theorem rearmRegister_turned {waker : Waker} (source : state.pc party = .rearmRegister waker) :
    TurnedBy half n state (rearmRegister state party waker) party .advance := by
  unfold rearmRegister
  dsimp only
  split
  · rename_i armed
    exact .own source rfl rfl ⟨rfl, rfl, rfl⟩
      (.rearm rfl rfl (full_of_armed armed) (storeAsync_slot _ _) rfl id)
  · rename_i found
    have empty : (state.signal party).waker = .none := (storeAsync_wasEmpty_iff _ _).mp found
    refine .own source rfl rfl ⟨rfl, rfl, rfl⟩ (.refill rfl (fun other same => ?_) empty rfl id)
    exact (Option.some.inj same).symm

theorem rearmLoad_turned {waker : Waker} (source : state.pc party = .rearmLoad waker) :
    TurnedBy half n state (rearmLoad state party waker) party .advance := by
  unfold rearmLoad
  dsimp only
  split
  · rename_i final
    exact pollValue_turned source ⟨rfl, rfl⟩ (.reread rfl final rfl never)
  · rename_i fresh
    exact .goto source rfl rfl ⟨rfl, rfl, rfl⟩ (.wakeSelf rfl (Bool.eq_false_iff.mpr fresh) rfl id)

theorem drop_turned (source : state.pc party = .future) :
    TurnedBy half n state (drop state party) party .drop := by
  unfold drop
  split <;> exact .apart source rfl rfl ⟨rfl, rfl, rfl⟩ rfl

theorem removeLock_turned (source : state.pc party = .removeLock)
    (stepped : removeLock state party = some next) : TurnedBy half n state next party .advance := by
  unfold removeLock at stepped
  split at stepped <;> cases stepped
  · rename_i empty
    refine .goto source rfl rfl ⟨rfl, rfl, rfl⟩ (.missing ?_ rfl)
    rintro ⟨linked, -⟩
    rw [(WaitQueue.lock_absent empty).2.1] at linked
    cases linked
  · exact .apart source rfl rfl ⟨rfl, rfl, rfl⟩ rfl

theorem removeNode_turned (source : state.pc party = .removeNode) :
    TurnedBy half n state (removeNode state party) party .advance := by
  unfold removeNode
  by_cases linked : party ∈ state.queue.entries
  · rw [decide_eq_true linked]
    exact .apart source rfl rfl ⟨rfl, rfl, rfl⟩ rfl
  · rw [decide_eq_false linked]
    exact .goto source rfl rfl ⟨rfl, rfl, rfl⟩ (.missing (fun stays => linked stays.1) rfl)

theorem removeUnlock_turned {found : Bool} (source : state.pc party = .removeUnlock found) :
    TurnedBy half n state (removeUnlock state party found) party .advance := by
  cases found with
  | false =>
    exact .goto source rfl rfl ⟨rfl, rfl, rfl⟩ (.same rfl NodeRole.noConfusion rfl rfl fun _ => rfl)
  | true => exact .apart source rfl rfl ⟨rfl, rfl, rfl⟩ rfl

variable [Fintype ι] {orderly : Prop}

/-- `drop_slow` waits for its signal when it reads another generation than its own. -/
theorem withdrawTry_turned (inv : Rounds half (coreSize n) orderly state)
    (small : coreSize n ≤ arrivedMask half)
    (source : state.pc party = pc) (withdraws : pc = .withdrawLoad ∨ ∃ cur, pc = .withdrawCas cur) :
    TurnedBy half n state (withdrawTry half state party state.word) party .advance := by
  have said : Silent pc ∧ (∀ value, waitsAt pc value = true) ∧ (∀ value, inWaitAt pc value = true) ∧
      ∀ value, capturesAt pc value = true := by
    rcases withdraws with rfl | ⟨cur, rfl⟩ <;>
      exact ⟨⟨rfl, rfl⟩, fun _ => rfl, fun _ => rfl, fun _ => rfl⟩
  obtain ⟨silent, waits, inside, captures⟩ := said
  unfold withdrawTry
  split
  · exact .apart source rfl rfl ⟨silent.1, silent.2, rfl⟩ rfl
  · rename_i ended
    refine .goto source rfl rfl ⟨silent.1, silent.2, rfl⟩ (.missing ?_ (waits _))
    rintro ⟨-, current⟩
    have passed := inv.over_of_generation small (by rw [source]; exact inside _) fun same =>
      ended (by rw [same, (inv.known party).captured (by rw [source]; exact captures _)])
    exact passed.ne current

/-- **Every step inside a call is a turn.** -/
theorem advance_turned (inv : Rounds half (coreSize n) orderly state)
    (small : coreSize n ≤ arrivedMask half)
    (waiting : Waiting state) (stepped : advance half (coreSize n) state party = some next) :
    TurnedBy half n state next party .advance := by
  cases source : state.pc party <;>
    simp only [advance, source, Option.some.injEq, reduceCtorEq] at stepped
  case releaseLock => exact releaseLock_turned waiting source stepped
  case removeLock => exact removeLock_turned source stepped
  case enqueueLock =>
    unfold enqueueLock at stepped
    split at stepped <;> cases stepped
    exact .armed source rfl rfl ⟨rfl, rfl, rfl⟩ rfl rfl rfl
  case waitPark | dropSpin =>
    simp only [waitPark, dropSpin] at stepped
    split at stepped <;> cases stepped
    exact .apart source rfl rfl ⟨rfl, rfl, rfl⟩ rfl
  all_goals subst stepped
  case arriveLoad => exact arriving_turned source ⟨rfl, rfl⟩ rfl rfl rfl fun _ => rfl
  case arriveCas => exact arriveCas_turned source
  case releaseDrain => exact .apart source rfl rfl ⟨rfl, rfl, rfl⟩ rfl
  case releaseUnlock => exact releaseUnlock_turned waiting source
  case releaseTake => exact .take source rfl rfl rfl rfl rfl
  case releasePublish => exact releasePublish_turned waiting source
  case enqueueFresh =>
    unfold enqueueFresh
    split
    · exact .apart source rfl rfl ⟨rfl, rfl, rfl⟩ rfl
    · exact .armed source rfl rfl ⟨rfl, rfl, rfl⟩ rfl rfl rfl
  case enqueuePush => exact enqueuePush_turned waiting source
  case enqueueUnlock => exact enqueueUnlock_turned source
  case waitSwap => exact waitSwap_turned waiting source
  case rearmRegister => exact rearmRegister_turned source
  case rearmLoad => exact rearmLoad_turned source
  case withdrawLoad => exact withdrawTry_turned inv small source (.inl rfl)
  case withdrawCas cur =>
    unfold withdrawCas
    split
    · exact .apart source rfl rfl ⟨rfl, rfl, rfl⟩ rfl
    · exact withdrawTry_turned inv small source (.inr ⟨cur, rfl⟩)
  case removeNode => exact removeNode_turned source
  case removeUnlock => exact removeUnlock_turned source

/-- **The beginning of every call is a turn.** -/
theorem begin_turned {move : Move} (stepped : begin state party move = some next) :
    TurnedBy half n state next party move := by
  cases move <;> simp only [begin] at stepped
  case advance => cases stepped
  all_goals
    split at stepped <;> cases stepped
    rename_i source
  case poll waker => exact poll_turned source
  case drop => exact drop_turned source
  case create => exact .own source rfl rfl ⟨rfl, rfl, rfl⟩ (.done rfl)
  case wait => exact .apart source rfl rfl ⟨rfl, rfl, rfl⟩ rfl

end Turned

/-! ### Reachable states -/

section Reachable

variable [Fintype ι] {half n : ℕ} {state next : State ι} {label : Label ι} {other : ι}

/-- A step changes the round of nobody who waits, and completes rounds at most. -/
theorem round_of_waits (stepped : step half n state label = some next)
    (given : other = label.1 → waitsAt (state.pc other) (state.signal other).value = true) :
    next.round other = state.round other ∧ state.rounds ≤ next.rounds := by
  rcases step_word .new stepped with ⟨arrives, source, -⟩ | ⟨withdraws, -⟩ | ⟨quiet, -⟩
  · refine ⟨?_, by rw [arrives.rounds]; exact Nat.le_add_right _ _⟩
    rw [arrives.round, Function.update_of_ne]
    intro self
    have given := given self
    rw [self] at given
    revert given source
    cases state.pc label.1 <;> simp [arrivesAt, waitsAt]
  · exact ⟨by rw [withdraws.round], withdraws.rounds.ge⟩
  · exact ⟨by rw [quiet.round], quiet.rounds.ge⟩

/-- **The barrier wakes whom it signals**, in the runs in which fewer than `2 ^ half` rounds
complete during one wait. -/
theorem sound {allowed : State ι → Label ι → State ι → Prop}
    (unwrapped : ∀ state label next, allowed state label next → NoWrap half next) :
    (sleeping ι half n).Sound allowed where
  start {state} initial party := by
    obtain ⟨-, rfl⟩ := initial
    rfl
  queue {state} reach := ⟨state.queue, rfl, waiting_of_reachable reach⟩
  stays {state label next other} reach stepped _ given stays := by
    obtain ⟨pc', moves⟩ := step_moves (waiting_of_reachable reach) stepped
    have linked : other ∈ state.queue.entries := linked_before moves (fun self => self ▸ given self)
      stays.1
    obtain ⟨inv, -⟩ := counted_of_reachable (reach.mono unwrapped)
    obtain ⟨round, later⟩ := round_of_waits stepped given
    have bounded := (inv.known other).bounded (inWait_of_queued (waiting_of_reachable reach) linked)
    refine ⟨linked, Nat.le_antisymm bounded ?_⟩
    rw [← round, show next.round other = next.rounds from stays.2]
    exact later
  turned {state label next} reach stepped _ := by
    obtain ⟨party, move⟩ := label
    have stepped : step half (coreSize n) state (party, move) = some next := stepped
    unfold step at stepped
    split at stepped
    · rename_i advances
      rw [show move = .advance from advances]
      exact advance_turned (counted_of_reachable (reach.mono unwrapped)).1 (fits_of_reachable reach)
        (waiting_of_reachable reach) stepped
    · exact begin_turned stepped
  asleep {state party} reach parked stopped := by
    have source : state.pc party = .waitPark := eq_waitPark parked
    have stopped : advance half (coreSize n) state party = none := stopped
    refine fresh_of_not_reachesAll (waiting_of_reachable reach) (by rw [source]; rfl) fun reaches =>
      ?_
    simp [advance, source, waitPark, reaches] at stopped

end Reachable

end Xutex.Barrier
