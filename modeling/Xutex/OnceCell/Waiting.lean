/-
**The once-cell keeps the discipline of its wait queue.**

`discipline` declares the program points of the once-cell to the general rules of `Waiters`, and
every step is one of the moves they allow. A future that holds the initializer role is at rest like
any other, with its node marked as returned: `Parked` adds this to the discipline, and holds in
every reachable state (`parked_of_reachable`).
-/

import Xutex.Core.Waiters
import Xutex.OnceCell.Frames

set_option linter.unusedSectionVars false

namespace Xutex.OnceCell

open Concurrency Discipline

variable {ι V : Type} [DecidableEq ι]

/-! ### The declared program points -/

/-- A future whose initializer has ended is complete before the cell is. -/
def After.own : After → Option SignalValue
  | .pollValue | .pollFailed => some .returned
  | .stored | .syncValue | .syncFailed | .syncPanicked | .dropped => none

/-- The popped nodes that an unlock leaves to be signalled. -/
def Unlock.chain : Unlock ι → List ι
  | .drained chain _ => chain
  | .popped (some node) _ => [node]
  | .popped none _ | .state _ | .enqueued _ | .removed _ => []

/-- The node of the party that unlocks is given away. -/
def Unlock.waits : Unlock ι → SignalValue → Bool
  | .enqueued mode, value => modeWaits mode value
  | .removed false, _ => true
  | .drained _ _, _ | .popped _ _, _ | .state _, _ | .removed true, _ => false

def Unlock.own : Unlock ι → Option SignalValue
  | .drained _ after | .popped _ after => after.own
  | .state mode => some (armedValue mode)
  | .enqueued _ | .removed _ => none

def chainOf : Pc ι V → List ι
  | .unlock back => back.chain
  | .signalTake node rest _ _ | .signalPublish node rest _ _ => node :: rest
  | _ => []

def waitsAt : Pc ι V → SignalValue → Bool
  | .future, value | .waitLoad _, value | .rearmRegister _, value | .rearmLoad _, value =>
    valueWaits value
  | .unlock back, value => back.waits value
  | .syncSwap, _ | .syncPark, _ => true
  | .cancelLock, _ | .cancelRemove, _ | .cancelWait, _ => true
  | _, _ => false

def lockedAt : Pc ι V → Bool
  | .completeDrain _ | .retryPop _ | .enqueueCheck _ | .enqueuePush _ => true
  | .unlock _ | .cancelRemove => true
  | _ => false

def ownValue : Pc ι V → Option SignalValue
  | .enqueueLock mode | .enqueueCheck mode | .enqueuePush mode => some (armedValue mode)
  | .stateLoad _ | .beginInit _ => some .uninit
  | .produce | .drive | .dropFut _ | .valueRef true => some .returned
  | .writeSlot _ after | .completeSwap after | .completeLock after | .completeDrain after =>
    after.own
  | .abortSwap after | .retryLock after | .retryPop after => after.own
  | .unlock back => back.own
  | .signalTake _ _ _ after | .signalPublish _ _ _ after => after.own
  | _ => none

/-- **The once-cell's program points**, as far as waiting is concerned. A waiter is signalled with
`SIGNAL_SIGNALED` or `SIGNAL_RETRY`. -/
def discipline : Discipline ι (Pc ι V) where
  chain := chainOf
  waits := waitsAt
  locked := lockedAt
  own := ownValue
  signals signal := decide (signal = .signaled ∨ signal = .retry)
  signalsFinal {signal} kind := by
    rcases of_decide_eq_true kind with rfl | rfl <;> rfl
  signalledWaits {pc value signal} waits kind := by
    have given : valueWaits signal = true := by rcases of_decide_eq_true kind with rfl | rfl <;> rfl
    have mode (mode : Mode) : modeWaits mode signal = true := by
      cases mode <;> simp [modeWaits, given]
    cases pc <;> simp_all [waitsAt]
    all_goals rename Unlock ι => back
    all_goals cases back <;> simp_all [Unlock.waits]
    all_goals rename Bool => found
    all_goals cases found <;> simp_all
  signalerFree {pc} value busy := by
    cases pc <;> simp_all [chainOf, waitsAt]
    all_goals rename Unlock ι => back
    all_goals cases back <;> simp_all [Unlock.waits, Unlock.chain]
  ownFree {pc value} other own := by
    cases pc <;> simp_all [ownValue, waitsAt]
    all_goals rename Unlock ι => back
    all_goals cases back <;> simp_all [Unlock.waits, Unlock.own]

/-- The part of the state that waiting is about. -/
def State.waiters (state : State ι V) : Waiters ι (Pc ι V) := ⟨state.queue, state.signal, state.pc⟩

/-- The invariant of waiting, for the once-cell. -/
abbrev Waiting (state : State ι V) : Prop := discipline.Kept state.waiters

/-- The step is a move of `party` from `pc`. -/
abbrev MovesFrom (state next : State ι V) (party : ι) (pc : Pc ι V) : Prop :=
  ∃ pc', discipline.Moves state.waiters next.waiters party pc pc'

/-! ### The shared endings -/

/-- Where `complete`, `abort` or `wake_one_retry` returns to. -/
def finishPc : After → Pc ι V
  | .syncValue => .valueRef false
  | .pollValue => .valueRef true
  | .pollFailed => .future
  | .stored | .syncFailed | .syncPanicked | .dropped => .idle

/-- Where `signal_all` goes on. -/
def signalPc (retry : Bool) (after : After) : List ι → Pc ι V
  | [] => finishPc after
  | node :: rest => .signalTake node rest retry after

section Moves

variable {state next : State ι V} {party : ι} {pc : Pc ι V} {mode : Mode} {after : After}

theorem finish_waiters : (finish state party after).waiters =
    ⟨state.queue, state.signal, Function.update state.pc party (finishPc after)⟩ := by
  cases after <;> rfl

theorem signalNext_waiters {retry : Bool} {chain : List ι} :
    (signalNext state party retry after chain).waiters =
      ⟨state.queue, state.signal, Function.update state.pc party (signalPc retry after chain)⟩ := by
  cases chain with
  | nil => exact finish_waiters
  | cons node rest => rfl

/-- The node of the party is as the return needs it. -/
def Complete (after : After) (value : SignalValue) : Prop := ∀ own, after.own = some own →
    value = own

theorem complete_of_own (waiting : Waiting state) (source : state.pc party = pc)
    (own : ownValue pc = after.own) : Complete after (state.signal party).value := by
  intro value owned
  exact waiting.owned party value ((congrArg ownValue source).trans (own.trans owned))

/-- The point after a return: nothing is given away. -/
theorem finishPc_waits {value : SignalValue} (complete : Complete after value) :
    waitsAt (finishPc after : Pc ι V) value = false := by
  cases after <;> first | rfl | skip
  rw [complete .returned rfl]
  rfl

theorem finishPc_own : ownValue (finishPc after : Pc ι V) = none ∨
    ownValue (finishPc after : Pc ι V) = after.own := by
  cases after <;> first | exact .inl rfl | exact .inr rfl

theorem finishPc_chain : chainOf (finishPc after : Pc ι V) = [] := by
  cases after <;> rfl

theorem finishPc_free : lockedAt (finishPc after : Pc ι V) = false := by
  cases after <;> rfl

theorem signalPc_chain {retry : Bool} {chain : List ι} :
    chainOf (signalPc retry after chain : Pc ι V) = chain := by
  cases chain with
  | nil => exact finishPc_chain
  | cons node rest => rfl

theorem signalPc_free {retry : Bool} {chain : List ι} :
    lockedAt (signalPc retry after chain : Pc ι V) = false := by
  cases chain with
  | nil => exact finishPc_free
  | cons node rest => rfl

theorem signalPc_waits {retry : Bool} {chain : List ι} {value : SignalValue}
    (complete : Complete after value) :
    waitsAt (signalPc retry after chain : Pc ι V) value = false := by
  cases chain with
  | nil => exact finishPc_waits complete
  | cons node rest => rfl

theorem signalPc_own {retry : Bool} {chain : List ι} :
    ownValue (signalPc retry after chain : Pc ι V) = none ∨
      ownValue (signalPc retry after chain : Pc ι V) = after.own := by
  cases chain with
  | nil => exact finishPc_own
  | cons node rest => exact .inr rfl

/-- The return from a call that holds nothing. -/
theorem finish_moves (waiting : Waiting state) (source : state.pc party = pc)
    (chain : chainOf pc = [])
    (free : lockedAt pc = false) (waits : ∀ value, waitsAt pc value = false)
    (own : ownValue pc = after.own) : MovesFrom state (finish state party after) party pc := by
  have complete := complete_of_own waiting source own
  have returns : ownValue (finishPc after : Pc ι V) = none ∨ ownValue (finishPc after : Pc ι V) =
      ownValue pc := by
    rw [own]
    exact finishPc_own
  exact ⟨finishPc after, .goto source finish_waiters (finishPc_chain.trans chain.symm)
    (finishPc_free.trans free.symm) ((finishPc_waits complete).trans (waits _).symm) returns⟩

/-! ### Every step is a move -/

theorem getLoad_moves (source : state.pc party = .getLoad) :
    MovesFrom state (getLoad state party) party .getLoad := by
  unfold getLoad
  split
  · exact ⟨.valueRef false, .goto source rfl rfl rfl rfl (.inl rfl)⟩
  · exact ⟨.idle, .goto source rfl rfl rfl rfl (.inl rfl)⟩

theorem initGet_moves (source : state.pc party = .initGet) :
    MovesFrom state (initGet state party) party .initGet := by
  unfold initGet
  split
  · exact ⟨.valueRef false, .goto source rfl rfl rfl rfl (.inl rfl)⟩
  · exact ⟨.syncLoad, .goto source rfl rfl rfl rfl (.inl rfl)⟩

theorem syncLoad_moves (source : state.pc party = .syncLoad) :
    MovesFrom state (syncLoad state party) party .syncLoad := by
  unfold syncLoad
  split
  · exact ⟨.valueRef false, .goto source rfl rfl rfl rfl (.inl rfl)⟩
  · exact ⟨.syncBegin, .goto source rfl rfl rfl rfl (.inl rfl)⟩
  · exact ⟨.enqueueLock .wait, .write source rfl rfl rfl rfl rfl (.inr rfl)⟩

theorem syncBegin_moves (source : state.pc party = .syncBegin) :
    MovesFrom state (syncBegin state party) party .syncBegin := by
  unfold syncBegin tryBeginInit
  split
  · exact ⟨.syncLoad, .goto source rfl rfl rfl rfl (.inl rfl)⟩
  · rename_i begun won
    split at won <;> cases won
    split
    · exact ⟨.closure, .goto source rfl rfl rfl rfl (.inl rfl)⟩
    · exact ⟨.abortSwap .syncPanicked, .goto source rfl rfl rfl rfl (.inl rfl)⟩

theorem setBegin_moves {value : V} (source : state.pc party = .setBegin value) :
    MovesFrom state (setBegin state party value) party (.setBegin value) := by
  unfold setBegin tryBeginInit
  split
  · rename_i begun won
    split at won <;> cases won
    exact ⟨.writeSlot value .stored, .goto source rfl rfl rfl rfl (.inl rfl)⟩
  · split
    · exact ⟨.idle, .goto source rfl rfl rfl rfl (.inl rfl)⟩
    · exact ⟨.idle, .goto source rfl rfl rfl rfl (.inl rfl)⟩

theorem completeLock_moves (waiting : Waiting state) (source : state.pc party = .completeLock after)
    (stepped : completeLock state party after = some next) :
    MovesFrom state next party (.completeLock after) := by
  unfold completeLock at stepped
  split at stepped <;> cases stepped
  · exact finish_moves waiting source rfl rfl (fun _ => rfl) rfl
  · rename_i held result
    exact ⟨_, .lock source result rfl rfl rfl rfl (.inr rfl)⟩

theorem retryLock_moves (waiting : Waiting state) (source : state.pc party = .retryLock after)
    (stepped : retryLock state party after = some next) :
    MovesFrom state next party (.retryLock after) := by
  unfold retryLock at stepped
  split at stepped <;> cases stepped
  · exact finish_moves waiting source rfl rfl (fun _ => rfl) rfl
  · rename_i held result
    exact ⟨_, .lock source result rfl rfl rfl rfl (.inr rfl)⟩

theorem retryPop_moves (source : state.pc party = .retryPop after) :
    MovesFrom state (retryPop state party after) party (.retryPop after) := by
  unfold retryPop
  split
  · exact ⟨_, .goto source rfl rfl rfl rfl (.inr rfl)⟩
  · rename_i front rest linked
    have front : state.waiters.queue.entries = [front] ++ rest := linked
    exact ⟨_, .pop source rfl front (fun _ => rfl) rfl rfl rfl (.inr rfl)⟩

theorem enqueueLock_moves (source : state.pc party = .enqueueLock mode)
    (stepped : enqueueLock state party mode = some next) :
    MovesFrom state next party (.enqueueLock mode) := by
  unfold enqueueLock at stepped
  split at stepped <;> cases stepped
  rename_i held result
  exact ⟨_, .lock source result rfl rfl rfl rfl (.inr rfl)⟩

theorem enqueueCheck_moves (source : state.pc party = .enqueueCheck mode) :
    MovesFrom state (enqueueCheck state party mode) party (.enqueueCheck mode) := by
  unfold enqueueCheck
  split
  · exact ⟨_, .goto source rfl rfl rfl rfl (.inr rfl)⟩
  · exact ⟨_, .goto source rfl rfl rfl rfl (.inr rfl)⟩

theorem enqueuePush_moves (waiting : Waiting state) (source : state.pc party = .enqueuePush mode) :
    MovesFrom state (enqueuePush state party mode) party (.enqueuePush mode) := by
  have value : (state.signal party).value = armedValue mode :=
    waiting.owned party _ (congrArg ownValue source)
  have result : (enqueuePush state party mode).waiters = ⟨state.queue.push party,
      Function.update state.signal party (state.signal party),
      Function.update state.pc party (.unlock (.enqueued mode))⟩ := by
    rw [Function.update_eq_self]
    rfl
  refine ⟨.unlock (.enqueued mode), .push source result rfl rfl rfl ?_ ?_ rfl⟩
  · rw [value]
    exact modeWaits_armedValue mode
  · rw [value]
    exact armedValue_unsignalled mode

theorem signalPublish_moves {node : ι} {rest : List ι} {retry : Bool} (waiting : Waiting state)
    (source : state.pc party = .signalPublish node rest retry after) :
    MovesFrom state (signalPublish state party node rest retry after) party
      (.signalPublish node rest retry after) := by
  have kind : (discipline : Discipline ι (Pc ι V)).signals (signalValue retry) = true := by
    cases retry <;> rfl
  have complete := complete_of_own waiting source rfl
  exact ⟨_, .publish waiting source signalNext_waiters kind
    (congrArg (node :: ·) signalPc_chain.symm) signalPc_free (signalPc_waits complete) signalPc_own⟩

/-- **The end of every critical section.** -/
theorem unlock_moves {back : Unlock ι} (waiting : Waiting state)
    (source : state.pc party = .unlock back) :
    MovesFrom state (unlocked { state with queue := state.queue.unlock } party back) party
      (.unlock back) := by
  have goto (pc' : Pc ι V) (chain : chainOf pc' = back.chain) (free : lockedAt pc' = false)
      (waits : waitsAt pc' (state.signal party).value = back.waits (state.signal party).value)
      (own : ownValue pc' = none ∨ ownValue pc' = back.own) :
      MovesFrom state ({ state with queue := state.queue.unlock }.goto party pc') party
        (.unlock back) :=
    ⟨pc', .unlock source rfl chain rfl free waits own⟩
  cases back with
  | drained popped after =>
    have complete := complete_of_own waiting source rfl
    exact ⟨_, .unlock source signalNext_waiters signalPc_chain rfl signalPc_free
      (signalPc_waits complete) signalPc_own⟩
  | popped node after =>
    cases node with
    | none =>
      have complete := complete_of_own waiting source rfl
      exact ⟨_, .unlock source finish_waiters finishPc_chain rfl finishPc_free
        (finishPc_waits complete) finishPc_own⟩
    | some node => exact goto _ rfl rfl rfl (.inr rfl)
  | state mode =>
    cases mode with
    | wait => exact goto _ rfl rfl rfl (.inl rfl)
    | poll waker => exact ⟨.waitLoad waker, .unlockWrite source rfl rfl rfl rfl rfl rfl (.inl rfl)⟩
  | enqueued mode =>
    cases mode with
    | wait => exact goto _ rfl rfl rfl (.inl rfl)
    | poll waker => exact goto _ rfl rfl rfl (.inl rfl)
  | removed found =>
    cases found with
    | false => exact goto _ rfl rfl rfl (.inl rfl)
    | true => exact goto _ rfl rfl rfl (.inl rfl)

theorem syncSwap_moves (source : state.pc party = .syncSwap) :
    MovesFrom state (syncSwap state party) party .syncSwap := by
  unfold syncSwap
  dsimp only
  split
  · rename_i final
    exact ⟨.syncLoad, .consumeWrite source rfl rfl rfl rfl final rfl (.inl rfl)⟩
  · rename_i fresh
    exact ⟨.syncPark, .touch source rfl rfl rfl rfl (.inr ⟨Bool.eq_false_iff.mpr fresh, rfl⟩) rfl⟩

theorem syncPark_moves (source : state.pc party = .syncPark)
    (stepped : syncPark state party = some next) : MovesFrom state next party .syncPark := by
  unfold syncPark at stepped
  dsimp only at stepped
  split at stepped <;> cases stepped
  rename_i final
  exact ⟨.syncLoad, .consume source rfl rfl rfl rfl final rfl rfl⟩

theorem waitLoad_moves {waker : Waker} (waiting : Waiting state)
    (source : state.pc party = .waitLoad waker) :
    MovesFrom state (waitLoad state party waker) party (.waitLoad waker) := by
  -- a node that was signalled was signalled with one of the two values
  have foreign (given : valueWaits (state.signal party).value = true)
      (final : (state.signal party).value.isFinal = true) :
      (state.signal party).value = .signaled ∨ (state.signal party).value = .retry :=
    of_decide_eq_true (waiting.signalled party ((congrArg (waitsAt · _) source).trans given) final)
  unfold waitLoad
  split
  case h_1 value =>
    exact ⟨.valueRef true, .consumeWrite source rfl rfl rfl (congrArg valueWaits value)
      (congrArg SignalValue.isFinal value) rfl (.inr rfl)⟩
  case h_2 value =>
    exact ⟨.stateLoad waker, .consumeWrite source rfl rfl rfl (congrArg valueWaits value)
      (congrArg SignalValue.isFinal value) rfl (.inr rfl)⟩
  case h_3 value => exact ⟨.rearmRegister waker, .goto source rfl rfl rfl rfl (.inl rfl)⟩
  case h_4 value => exact ⟨.future, .goto source rfl rfl rfl rfl (.inl rfl)⟩
  case h_5 value =>
    refine ⟨.stateLoad waker, .read source rfl rfl rfl (congrArg valueWaits value).symm
      fun own owned => ?_⟩
    cases owned
    exact value
  case h_6 value =>
    rw [value] at foreign
    simp [valueWaits, SignalValue.isFinal] at foreign
  case h_7 value =>
    rw [value] at foreign
    simp [valueWaits, SignalValue.isFinal] at foreign

theorem stateLoad_moves {waker : Waker} (source : state.pc party = .stateLoad waker) :
    MovesFrom state (stateLoad state party waker) party (.stateLoad waker) := by
  unfold stateLoad
  split
  · exact ⟨.valueRef true, .write source rfl rfl rfl rfl rfl (.inr rfl)⟩
  · exact ⟨.beginInit waker, .goto source rfl rfl rfl rfl (.inr rfl)⟩
  · exact ⟨.enqueueLock (.poll waker), .write source rfl rfl rfl rfl rfl (.inr rfl)⟩

theorem beginInit_moves {waker : Waker} (waiting : Waiting state)
    (source : state.pc party = .beginInit waker) :
    MovesFrom state (beginInit state party waker) party (.beginInit waker) := by
  have value : (state.signal party).value = .uninit :=
    waiting.owned party _ (congrArg ownValue source)
  unfold beginInit tryBeginInit
  split
  · exact ⟨.waitLoad waker, .goto source rfl rfl rfl (congrArg valueWaits value) (.inl rfl)⟩
  · rename_i begun won
    split at won <;> cases won
    dsimp only
    split
    · exact ⟨.produce, .write source rfl rfl rfl rfl rfl (.inr rfl)⟩
    · exact ⟨.future, .write source rfl rfl rfl rfl rfl (.inl rfl)⟩

theorem rearmRegister_moves {waker : Waker} (source : state.pc party = .rearmRegister waker) :
    MovesFrom state (rearmRegister state party waker) party (.rearmRegister waker) := by
  unfold rearmRegister
  dsimp only
  split
  · exact ⟨.future, .touch source rfl rfl rfl rfl (.inl rfl) rfl⟩
  · exact ⟨.rearmLoad waker, .touch source rfl rfl rfl rfl (.inl rfl) rfl⟩

theorem rearmLoad_moves {waker : Waker} (source : state.pc party = .rearmLoad waker) :
    MovesFrom state (rearmLoad state party waker) party (.rearmLoad waker) := by
  unfold rearmLoad
  split
  · exact ⟨.waitLoad waker, .goto source rfl rfl rfl rfl (.inl rfl)⟩
  · exact ⟨.future, .goto source rfl rfl rfl rfl (.inl rfl)⟩

theorem cancelLock_moves (source : state.pc party = .cancelLock)
    (stepped : cancelLock state party = some next) : MovesFrom state next party .cancelLock := by
  unfold cancelLock at stepped
  split at stepped <;> cases stepped
  · exact ⟨.cancelWait, .goto source rfl rfl rfl rfl (.inl rfl)⟩
  · rename_i held result
    exact ⟨_, .lock source result rfl rfl rfl rfl (.inl rfl)⟩

theorem cancelRemove_moves (source : state.pc party = .cancelRemove) :
    MovesFrom state (cancelRemove state party) party .cancelRemove := by
  unfold cancelRemove
  split
  · rename_i member
    exact ⟨_, .remove source member rfl rfl rfl rfl rfl⟩
  · exact ⟨.unlock (.removed false), .goto source rfl rfl rfl rfl (.inl rfl)⟩

theorem cancelWait_moves (source : state.pc party = .cancelWait)
    (stepped : cancelWait state party = some next) : MovesFrom state next party .cancelWait := by
  unfold cancelWait at stepped
  dsimp only at stepped
  split at stepped <;> cases stepped
  rename_i final
  split
  · exact ⟨.retryLock .dropped, .consume source rfl rfl rfl rfl final rfl rfl⟩
  · exact ⟨.idle, .consume source rfl rfl rfl rfl final rfl rfl⟩

theorem valueRef_moves {polled : Bool} (waiting : Waiting state)
    (source : state.pc party = .valueRef polled) :
    MovesFrom state (valueRef state party polled) party (.valueRef polled) := by
  cases polled with
  | false => exact ⟨.idle, .goto source rfl rfl rfl rfl (.inl rfl)⟩
  | true =>
    have value : (state.signal party).value = .returned :=
      waiting.owned party _ (congrArg ownValue source)
    exact ⟨.future, .goto source rfl rfl rfl (congrArg valueWaits value) (.inl rfl)⟩

/-- **Every step inside a call is a move.** -/
theorem advance_moves (waiting : Waiting state) (stepped : advance state party = some next) :
    MovesFrom state next party (state.pc party) := by
  cases source : state.pc party <;>
    simp only [advance, source, Option.some.injEq, reduceCtorEq] at stepped
  case completeLock => exact completeLock_moves waiting source stepped
  case retryLock => exact retryLock_moves waiting source stepped
  case enqueueLock => exact enqueueLock_moves source stepped
  case syncPark => exact syncPark_moves source stepped
  case cancelLock => exact cancelLock_moves source stepped
  case cancelWait => exact cancelWait_moves source stepped
  all_goals subst stepped
  case getLoad => exact getLoad_moves source
  case initGet => exact initGet_moves source
  case syncLoad => exact syncLoad_moves source
  case syncBegin => exact syncBegin_moves source
  case setBegin => exact setBegin_moves source
  case writeSlot => exact ⟨_, .goto source rfl rfl rfl rfl (.inr rfl)⟩
  case completeSwap => exact ⟨_, .goto source rfl rfl rfl rfl (.inr rfl)⟩
  case completeDrain =>
    exact ⟨_, .pop source rfl (List.append_nil _).symm (fun _ => rfl) rfl rfl rfl (.inr rfl)⟩
  case abortSwap => exact ⟨_, .goto source rfl rfl rfl rfl (.inr rfl)⟩
  case retryPop => exact retryPop_moves source
  case enqueueCheck => exact enqueueCheck_moves source
  case enqueuePush => exact enqueuePush_moves waiting source
  case unlock => exact unlock_moves waiting source
  case signalTake => exact ⟨_, .takeWaker source rfl rfl rfl rfl (.inr rfl)⟩
  case signalPublish => exact signalPublish_moves waiting source
  case syncSwap => exact syncSwap_moves source
  case waitLoad => exact waitLoad_moves waiting source
  case stateLoad => exact stateLoad_moves source
  case beginInit => exact beginInit_moves waiting source
  case rearmRegister => exact rearmRegister_moves source
  case rearmLoad => exact rearmLoad_moves source
  case cancelRemove => exact cancelRemove_moves source
  case valueRef => exact valueRef_moves waiting source

/-- **Every step of user code is a move.** -/
theorem user_moves {act : UserAct V} (waiting : Waiting state)
    (stepped : user state party act = some next) : MovesFrom state next party (state.pc party) := by
  -- a future that initializes is complete, so that it is at rest whenever user code lets it go
  have rests {pc : Pc ι V} (source : state.pc party = pc) (own : ownValue pc = some .returned) :
      valueWaits (state.signal party).value = false :=
    congrArg valueWaits (waiting.owned party .returned ((congrArg ownValue source).trans own))
  cases source : state.pc party <;> simp only [user, source, reduceCtorEq] at stepped
  case closure =>
    unfold closureAct at stepped
    split at stepped
    · cases stepped
      exact ⟨_, .goto source rfl rfl rfl rfl (.inl rfl)⟩
    · split at stepped <;> cases stepped
      exact ⟨_, .goto source rfl rfl rfl rfl (.inl rfl)⟩
    · cases stepped
      exact ⟨_, .goto source rfl rfl rfl rfl (.inl rfl)⟩
    all_goals cases stepped
  case produce =>
    unfold produceAct at stepped
    split at stepped <;> cases stepped
    · exact ⟨.drive, .goto source rfl rfl rfl rfl (.inr rfl)⟩
    · exact ⟨.future, .goto source rfl rfl rfl (rests source rfl) (.inl rfl)⟩
  case drive =>
    unfold driveAct at stepped
    split at stepped
    · cases stepped
      exact ⟨_, .goto source rfl rfl rfl rfl (.inr rfl)⟩
    · split at stepped <;> cases stepped
      exact ⟨_, .goto source rfl rfl rfl rfl (.inr rfl)⟩
    · cases stepped
      exact ⟨.future, .goto source rfl rfl rfl (rests source rfl) (.inl rfl)⟩
    · cases stepped
      exact ⟨.future, .goto source rfl rfl rfl (rests source rfl) (.inl rfl)⟩
    · cases stepped
  case dropFut result =>
    unfold dropFutAct at stepped
    split at stepped <;> cases stepped
    · cases result with
      | none => exact ⟨.abortSwap .pollFailed, .goto source rfl rfl rfl rfl (.inr rfl)⟩
      | some value => exact ⟨.writeSlot value .pollValue, .goto source rfl rfl rfl rfl (.inr rfl)⟩
    · exact ⟨.future, .goto source rfl rfl rfl (rests source rfl) (.inl rfl)⟩

theorem poll_moves {waker : Waker} (source : state.pc party = .future)
    (marked : state.initializing party = true → (state.signal party).value = .returned) :
    MovesFrom state (poll state party waker) party .future := by
  unfold poll
  split
  · rename_i holds
    have value := marked holds
    split
    · refine ⟨.drive, .read source rfl rfl rfl (congrArg valueWaits value).symm fun own owned => ?_⟩
      cases owned
      exact value
    · exact ⟨.future, .goto source rfl rfl rfl rfl (.inl rfl)⟩
  · exact ⟨.waitLoad waker, .goto source rfl rfl rfl rfl (.inl rfl)⟩

theorem drop_moves (source : state.pc party = .future)
    (marked : state.initializing party = true → (state.signal party).value = .returned) :
    MovesFrom state (drop state party) party .future := by
  unfold drop
  split
  · rename_i holds
    exact ⟨.abortSwap .dropped, .goto source rfl rfl rfl (congrArg valueWaits (marked holds)).symm
      (.inl rfl)⟩
  · split
    case h_1 value | h_2 value =>
      exact ⟨.idle, .goto source rfl rfl rfl (congrArg valueWaits value).symm (.inl rfl)⟩
    case h_3 value =>
      exact ⟨.idle, .consume source rfl rfl rfl (congrArg valueWaits value)
        (congrArg SignalValue.isFinal value) rfl rfl⟩
    case h_4 value =>
      exact ⟨.retryLock .dropped, .consume source rfl rfl rfl (congrArg valueWaits value)
        (congrArg SignalValue.isFinal value) rfl rfl⟩
    case h_5 value | h_6 value | h_7 value =>
      exact ⟨.cancelLock, .goto source rfl rfl rfl (congrArg valueWaits value).symm (.inl rfl)⟩

/-- A party is idle. -/
theorem isIdle_iff : pc.isIdle = true ↔ pc = .idle := by
  cases pc <;> simp [Pc.isIdle]

/-- **The beginning of every call is a move**; `take`, which finds everybody idle, is none. -/
theorem begin_moves [Fintype ι] {move : Move V} (shared : move ≠ .take)
    (marked : state.initializing party = true → (state.signal party).value = .returned)
    (stepped : begin state party move = some next) :
    MovesFrom state next party (state.pc party) := by
  cases move <;> simp only [begin] at stepped
  case user | advance => cases stepped
  case get | set | getOrInit =>
    split at stepped <;> cases stepped
    rename_i idle
    have source := isIdle_iff.mp idle
    rw [source]
    exact ⟨_, .goto source rfl rfl rfl rfl (.inl rfl)⟩
  case create =>
    split at stepped <;> cases stepped
    rename_i idle
    have source := isIdle_iff.mp idle
    rw [source]
    exact ⟨.future, .write source rfl rfl rfl rfl rfl (.inl rfl)⟩
  case poll waker =>
    split at stepped <;> cases stepped
    rename_i source
    rw [source]
    exact poll_moves source marked
  case drop =>
    split at stepped <;> cases stepped
    rename_i source
    rw [source]
    exact drop_moves source marked
  case take => exact absurd rfl shared

end Moves

/-! ### The initializer at rest -/

section Parked

variable {state next : State ι V} {party : ι}

/-- The points of a future that holds the initializer role. -/
def flaggedAt : Pc ι V → Bool
  | .future | .produce | .drive => true
  | _ => false

/-- **The discipline, and the futures that hold the initializer role.** -/
structure Parked (state : State ι V) : Prop where
  waiting : Waiting state
  marked : ∀ party, state.initializing party = true →
    flaggedAt (state.pc party) = true ∧ (state.signal party).value = .returned

/-- A future that holds the role is not given away. -/
theorem waits_of_flagged {pc : Pc ι V} (flagged : flaggedAt pc = true) :
    waitsAt pc .returned = false := by
  cases pc <;> first | rfl | cases flagged

section

variable (parked : Parked state)
include parked

/-- The flag of the party that moves is all that has to be looked at. -/
theorem Parked.step (moves : MovesFrom state next party (state.pc party))
    (others : ∀ other, other ≠ party → next.initializing other = state.initializing other)
    (own : next.initializing party = true → flaggedAt (next.pc party) = true ∧
      (next.signal party).value = .returned) :
    Parked next := by
  obtain ⟨pc', moves⟩ := moves
  refine ⟨parked.waiting.step moves, fun other holds => ?_⟩
  by_cases self : other = party
  · subst self
    exact own holds
  · rw [others other self] at holds
    obtain ⟨flagged, value⟩ := parked.marked other holds
    have rest : next.pc other = state.pc other := moves.rest self
    refine ⟨by rw [rest]; exact flagged, ?_⟩
    rcases parked.waiting.value_other moves self with same | ⟨waits, -⟩
    · exact Eq.trans same value
    · have waits : waitsAt (state.pc other) (state.signal other).value = true := waits
      rw [value, waits_of_flagged flagged] at waits
      cases waits

/-- Elsewhere the flag is down. -/
theorem Parked.unflagged (elsewhere : flaggedAt (state.pc party) = false) :
    state.initializing party = false := by
  by_contra up
  obtain ⟨flagged, -⟩ := parked.marked party (Bool.eq_true_of_not_eq_false up)
  rw [elsewhere] at flagged
  cases flagged

/-- Code runs only where user code does not. -/
theorem Parked.advances (stepped : advance state party = some next) :
    state.initializing party = false := by
  refine parked.unflagged ?_
  cases source : state.pc party <;> first | rfl | simp [advance, source] at stepped

theorem advance_parked (stepped : advance state party = some next) : Parked next := by
  have moves := advance_moves parked.waiting stepped
  have down := parked.advances stepped
  have quietly (same : next.initializing = state.initializing) : Parked next :=
    parked.step moves (fun other _ => congrFun same other) fun holds => by
      rw [same, down] at holds
      cases holds
  by_cases quiet : quietAt (state.pc party) = true
  · exact quietly (advance_frame quiet stepped).initializing
  cases source : state.pc party <;> simp [source, quietAt] at quiet <;>
    simp only [advance, source, Option.some.injEq] at stepped
  all_goals subst stepped
  case syncBegin =>
    refine quietly ?_
    unfold syncBegin tryBeginInit
    split
    · rfl
    · rename_i begun won
      split at won <;> cases won
      split <;> rfl
  case setBegin value =>
    refine quietly ?_
    unfold setBegin tryBeginInit
    split
    · rename_i begun won
      split at won <;> cases won
      rfl
    · split <;> rfl
  case beginInit waker =>
    unfold beginInit tryBeginInit at moves ⊢
    by_cases empty : state.phase = .empty
    · simp only [if_pos empty] at moves ⊢
      refine parked.step moves (fun other different => ?_) fun _ => ?_
      · split <;> simp [markReturned, different]
      · split <;> simp [markReturned, flaggedAt]
    · simp only [if_neg empty] at moves ⊢
      refine parked.step moves (fun other _ => rfl) fun holds => ?_
      have holds : state.initializing party = true := holds
      rw [down] at holds
      cases holds
  all_goals exact quietly rfl

theorem user_parked {act : UserAct V} (stepped : user state party act = some next) :
    Parked next := by
  have moves := user_moves parked.waiting stepped
  have quietly (same : next.initializing = state.initializing) (node : next.signal = state.signal)
      (flagged : state.initializing party = true → flaggedAt (next.pc party) = true) :
      Parked next := by
    refine parked.step moves (fun other _ => congrFun same other) fun holds => ?_
    rw [same] at holds
    rw [node]
    exact ⟨flagged holds, (parked.marked party holds).2⟩
  have gone (flag : next.initializing = Function.update state.initializing party false) :
      Parked next := by
    refine parked.step moves (fun other different => ?_) fun holds => ?_
    · rw [flag, Function.update_of_ne different]
    · rw [flag, Function.update_self] at holds
      cases holds
  cases source : state.pc party <;> simp only [user, source, reduceCtorEq] at stepped
  case closure =>
    have down (holds : state.initializing party = true) : flaggedAt (next.pc party) = true := by
      rw [parked.unflagged (congrArg flaggedAt source)] at holds
      cases holds
    unfold closureAct at stepped
    split at stepped
    · cases stepped
      exact quietly rfl rfl down
    · split at stepped <;> cases stepped
      exact quietly rfl rfl down
    · cases stepped
      exact quietly rfl rfl down
    all_goals cases stepped
  case produce =>
    unfold produceAct at stepped
    split at stepped <;> cases stepped <;> exact quietly rfl rfl fun _ => by simp [flaggedAt]
  case drive =>
    unfold driveAct at stepped
    split at stepped
    · cases stepped
      exact gone rfl
    · split at stepped <;> cases stepped
      exact gone rfl
    · cases stepped
      exact quietly rfl rfl fun _ => by simp [flaggedAt]
    · cases stepped
      exact quietly rfl rfl fun _ => by simp [flaggedAt]
    · cases stepped
  case dropFut result =>
    have down (holds : state.initializing party = true) : flaggedAt (next.pc party) = true := by
      rw [parked.unflagged (congrArg flaggedAt source)] at holds
      cases holds
    unfold dropFutAct at stepped
    split at stepped <;> cases stepped <;> exact quietly rfl rfl down

theorem take_parked : Parked (take state party) := by
  unfold take
  split <;> exact ⟨parked.waiting, parked.marked⟩

end

theorem begin_parked [Fintype ι] {move : Move V} (parked : Parked state)
    (stepped : begin state party move = some next) : Parked next := by
  have marked (holds : state.initializing party = true) := (parked.marked party holds).2
  -- an idle party owns no future
  have down (idle : (state.pc party).isIdle = true) : state.initializing party = false :=
    parked.unflagged (congrArg flaggedAt (isIdle_iff.mp idle))
  by_cases isTake : move = .take
  · subst isTake
    simp only [begin] at stepped
    split at stepped <;> cases stepped
    exact take_parked parked
  have moves := begin_moves isTake marked stepped
  cases move <;> simp only [begin] at stepped
  case user | advance => cases stepped
  case take => exact absurd rfl isTake
  case get | set | getOrInit =>
    split at stepped <;> cases stepped
    rename_i idle
    refine parked.step moves (fun _ _ => rfl) fun holds => ?_
    have holds : state.initializing party = true := holds
    rw [down idle] at holds
    cases holds
  case create =>
    split at stepped <;> cases stepped
    refine parked.step moves (fun other different => ?_) fun holds => ?_
    · simp [bring, different]
    · simp [bring] at holds
  case poll waker =>
    split at stepped <;> cases stepped
    revert moves
    unfold poll
    split
    · rename_i holds
      split
      · exact fun moves => parked.step moves (fun _ _ => rfl) fun _ =>
          ⟨by simp [flaggedAt], marked holds⟩
      · exact fun moves => parked.step moves (fun _ _ => rfl) fun _ =>
          ⟨by simp [flaggedAt], marked holds⟩
    · rename_i free
      exact fun moves => parked.step moves (fun _ _ => rfl) fun holds => absurd holds free
  case drop =>
    split at stepped <;> cases stepped
    revert moves
    unfold drop
    split
    · intro moves
      refine parked.step moves (fun other different => ?_) fun holds => ?_
      · simp [different]
      · simp at holds
    · rename_i free
      split <;> exact fun moves => parked.step moves (fun _ _ => rfl) fun holds => absurd holds free

end Parked

/-- **The discipline holds in every reachable state**, under any condition on the steps. -/
theorem parked_of_reachable [Fintype ι] {allowed : State ι V → Label ι V → State ι V → Prop}
    {state : State ι V} (reach : (machine ι V).ReachableBy allowed state) : Parked state := by
  refine reach.invariant Parked ?_ ?_
  · rintro _ ⟨value, rfl⟩
    exact ⟨Kept.start rfl fun _ => ⟨rfl, rfl, rfl, rfl⟩, by rintro _ ⟨⟩⟩
  · intro state label next _ parked stepped _
    have stepped : step state label = some next := stepped
    unfold step at stepped
    split at stepped
    · exact advance_parked parked stepped
    · exact user_parked parked stepped
    · exact begin_parked parked stepped

end Xutex.OnceCell
