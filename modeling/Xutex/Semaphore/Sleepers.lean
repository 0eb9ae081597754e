/-
**The semaphore and its sleepers: nobody sleeps through a grant or a close.**

`sleeping` declares what the program points of the semaphore mean for the waker slots, and every
step is one of the turns that `Sleepers` allows. A drain writes the `aux` words of the nodes it
serves, which are no part of the slots; a poll that panics on a request above `MAX_PERMITS` is ruled
out as in `Waiting`.
-/

import Xutex.Core.Sleepers
import Xutex.Semaphore.Waiting

set_option linter.unusedSectionVars false

namespace Xutex.Semaphore

open Concurrency Discipline Sleeping

variable {ι γ : Type} [DecidableEq ι] [DecidableEq γ]

/-! ### The declared program points -/

def Attempt.node : Attempt → NodeRole
  | .pollAcquire waker | .pollAcquireSlow waker => .polling waker
  | .tryAcquire | .acquireSync | .acquireSyncSlow => .apart

def Unlock.node : Unlock ι γ → NodeRole
  | .enqueued mode _ => .linked mode
  | .cancelMissing => .gone
  | .acquired _ | .closed _ | .drained _ _ | .closing _ | .cancelFound _ _ => .apart

def nodeAt : Pc ι γ → NodeRole
  | .tryLoad attempt | .tryCas attempt _ => attempt.node
  | .enqueueLock mode | .enqueueFlag mode | .enqueueCas mode _ | .enqueuePush mode => .armed mode
  | .unlock back | .unlockStore back => back.node
  | .syncSpin | .syncSwap => .thread
  | .syncPark => .parked
  | .future => .rest
  | .rearmRegister waker => .register waker
  | .rearmLoad _ => .reload none
  | .cancelWait => .gone
  | _ => .apart

def takesSlotAt : Pc ι γ → Option ι
  | .signalTake node _ _ _ => some node
  | _ => none

def publishesValueAt : Pc ι γ → Option ι
  | .signalPublish node _ _ _ => some node
  | _ => none

def registersAt : Pc ι γ → Option Waker
  | .rearmRegister waker => some waker
  | _ => none

def pollsWith : Move γ → Option Waker
  | .poll waker => some waker
  | _ => none

theorem Attempt.node_polls (attempt : Attempt) : attempt.node = .apart ∨
    ∃ waker, attempt.node = .polling waker := by
  cases attempt <;> first | exact .inl rfl | exact .inr ⟨_, rfl⟩

theorem Unlock.node_linked (back : Unlock ι γ) : back.node = .apart ∨ back.node = .gone ∨
    ∃ mode, back.node = .linked mode := by
  cases back <;> first | exact .inl rfl | exact .inr (.inl rfl) | exact .inr (.inr ⟨_, rfl⟩)

/-- Only the loop around `park` parks. -/
theorem eq_syncPark {pc : Pc ι γ} (parked : nodeAt pc = .parked) : pc = .syncPark := by
  cases pc
  case tryLoad attempt | tryCas attempt _ => cases attempt <;> cases parked
  case unlock back | unlockStore back =>
    cases back with
    | enqueued mode _ => cases mode <;> cases parked
    | _ => cases parked
  all_goals first | rfl | cases parked

theorem armed_free {pc : Pc ι γ} {mode : Mode} (value : SignalValue)
    (armed : nodeAt pc = .armed mode) : waitsAt pc value = false := by
  cases pc
  case unlock back | unlockStore back =>
    cases back with
    | enqueued mode _ => cases mode <;> cases armed
    | _ => cases armed
  all_goals first | rfl | cases armed

theorem gone_waits {pc : Pc ι γ} (value : SignalValue) (gone : nodeAt pc = .gone) :
    waitsAt pc value = true := by
  cases pc
  case tryLoad attempt | tryCas attempt _ => cases attempt <;> cases gone
  case unlock back | unlockStore back =>
    cases back with
    | enqueued mode _ => cases mode <;> cases gone
    | cancelMissing => rfl
    | _ => cases gone
  all_goals first | rfl | cases gone

theorem signaler_apart {pc : Pc ι γ} (busy : chainOf pc ≠ []) : nodeAt pc = .apart := by
  cases pc
  case unlock back | unlockStore back => cases back <;> first | rfl | exact absurd rfl busy
  all_goals first | rfl | exact absurd rfl busy

/-- **The semaphore with its sleepers.** -/
def sleeping (ι γ : Type) [DecidableEq ι] [DecidableEq γ] (width : PointerWidth) (n : ℕ) :
    Sleeping (State ι γ) ι (Pc ι γ) (Move γ) where
  core := machine ι γ width n
  discipline := discipline
  signal := State.signal
  pc := State.pc
  advance := .advance
  polls := pollsWith
  roleAt := nodeAt
  shows state queue := queue = state.queue
  stays state party := party ∈ state.queue.entries
  takes := takesSlotAt
  publishes := publishesValueAt
  registers := registersAt
  takesChain {pc node} takes := by
    cases pc <;> simp_all [takesSlotAt, discipline, chainOf]
  publishesChain {pc node} publishes := by
    cases pc <;> simp_all [publishesValueAt, discipline, chainOf]
  takesOnly {pc node} takes := by
    cases pc <;> simp_all [takesSlotAt, publishesValueAt]
  armedFree := armed_free
  signalerApart := signaler_apart
  goneWaits := gone_waits
  advanceQuiet := rfl

/-! ### Every step is a turn -/

section Turned

variable {width : PointerWidth} {n : ℕ} {state before next : State ι γ} {party : ι}
  {pc pc' : Pc ι γ} {mode : Mode} {after : After γ} {move : Move γ} {written : Signal}

/-- The step is a turn of `party`, made by the move `move`. -/
abbrev TurnedBy (width : PointerWidth) (n : ℕ) (state next : State ι γ) (party : ι)
    (move : Move γ) : Prop :=
  (sleeping ι γ width n).Turned state next (party, move)

/-- The program point neither takes a slot nor publishes a value. -/
abbrev Silent (pc : Pc ι γ) : Prop := takesSlotAt pc = none ∧ publishesValueAt pc = none

/-- A point that a call can end at with its node in the state `value`: the node does not matter, or
the future is complete. -/
def Ends (value : SignalValue) (pc : Pc ι γ) : Prop :=
  publishesValueAt pc = none ∧ (nodeAt pc = .apart ∨ pc = .future ∧ value = .returned)

theorem finishPc_ends {value : SignalValue} (complete : Complete after value) :
    Ends value (finishPc after : Pc ι γ) := by
  cases after with
  | closedPoll => exact ⟨rfl, .inr ⟨rfl, complete .returned rfl⟩⟩
  | done | closedWait | grant permit => exact ⟨rfl, .inl rfl⟩

theorem releasePc_ends {value : SignalValue} (m : ℕ) (complete : Complete after value) :
    Ends value (releasePc m after : Pc ι γ) := by
  unfold releasePc
  split
  · exact finishPc_ends complete
  · exact ⟨rfl, .inl rfl⟩

theorem signalPc_ends {value : SignalValue} (closed : Bool) (chain : List ι)
    (complete : Complete after value) : Ends value (signalPc closed after chain : Pc ι γ) := by
  cases chain with
  | nil => exact finishPc_ends complete
  | cons node rest => exact ⟨rfl, .inl rfl⟩

theorem Ends.turn (ends : Ends written.value pc') {was : Signal} {stays : Prop}
    {begun : Option Waker} {role : NodeRole} :
    (sleeping ι γ width n).Turn pc pc' was written stays begun role (nodeAt pc') := by
  rcases ends.2 with apart | ⟨rfl, complete⟩
  · rw [apart]
    exact .apart
  · refine .done ?_
    show valueWaits written.value = false
    rw [complete]
    rfl

section

variable (source : state.pc party = pc) (silent : Silent pc)
include source silent

/-- A call ends, or goes on to return permits. -/
theorem ends_turned {queue : WaitQueue ι}
    (result : next.waiters = ⟨queue, Function.update state.signal party written,
      Function.update state.pc party pc'⟩)
    (ends : Ends written.value pc') : TurnedBy width n state next party move :=
  .own source (congrArg Waiters.pc result) (congrArg Waiters.signal result)
    ⟨silent.1, silent.2, ends.1⟩ ends.turn

/-- The same, with the nodes as they are. -/
theorem returns_turned {queue : WaitQueue ι}
    (result : next.waiters = ⟨queue, state.signal, Function.update state.pc party pc'⟩)
    (ends : Ends (state.signal party).value pc') : TurnedBy width n state next party move := by
  have written : next.waiters =
      ⟨queue, Function.update state.signal party (state.signal party),
      Function.update state.pc party pc'⟩ := by
    rw [result, Function.update_eq_self]
  exact ends_turned source silent written ends

/-- A call that ends with a permit, or finds the semaphore closed: the node of a future is
complete. -/
theorem answered_turned {answered : Mode → State ι γ}
    (waited : (answered .wait).pc = Function.update state.pc party .idle ∧
      (answered .wait).signal = state.signal)
    (polled : ∀ waker, (answered (.poll waker)).pc = Function.update state.pc party .future ∧
      (answered (.poll waker)).signal = Function.update state.signal party
      ((state.signal party).setValue .returned)) :
    TurnedBy width n state (answered mode) party move := by
  cases mode with
  | wait => exact .apart source waited.1 waited.2 ⟨silent.1, silent.2, rfl⟩ rfl
  | poll waker =>
    exact .own source (polled waker).1 (polled waker).2 ⟨silent.1, silent.2, rfl⟩ (.done rfl)

theorem acquired_turned {pool : ℕ} {queue : WaitQueue ι} :
    TurnedBy width n state (acquired { state with pool := pool, queue := queue } party mode)
      party move :=
  answered_turned source silent ⟨rfl, rfl⟩ fun _ => ⟨rfl, rfl⟩

theorem refused_turned {queue : WaitQueue ι} :
    TurnedBy width n state (refused { state with queue := queue } party mode) party move :=
  answered_turned source silent ⟨rfl, rfl⟩ fun _ => ⟨rfl, rfl⟩

/-- A thread makes its node and goes on to the queue, or panics. -/
theorem enqueueWait_turned :
    TurnedBy width n state (enqueueOrAcquire width
      (state.setSignal party (Signal.newSync.setAux (state.requested party))) party .wait)
      party move := by
  unfold enqueueOrAcquire
  split
  · exact .own source rfl rfl ⟨silent.1, silent.2, rfl⟩ (.armThread rfl)
  · exact .own source rfl rfl ⟨silent.1, silent.2, rfl⟩ .apart

/-- A future arms its node and goes on to the queue; its request is not too large. -/
theorem enqueuePoll_turned {waker : Waker} (polls : nodeAt pc = .polling waker)
    (quiet : pollsWith move = none) (small : state.requested party ≤ maxPermits width) :
    TurnedBy width n state (enqueueOrAcquire width (state.setSignal party
      ((((state.signal party).setValue .initWaiting).register waker).setAux
      (state.requested party)))
      party (.poll waker)) party move := by
  rw [enqueueOrAcquire,
    if_pos (show (state.setSignal party _).requested party ≤ maxPermits width from small)]
  refine .own source rfl rfl ⟨silent.1, silent.2, rfl⟩ ?_
  show (sleeping ι γ width n).Turn _ _ _ _ _ _ (nodeAt pc) _
  rw [polls]
  exact .armTask quiet (storeAsync_slot _ _)

theorem tryNext_turned {attempt : Attempt} (tries : nodeAt pc = attempt.node)
    (bounded : ∀ waker, attempt = .pollAcquireSlow waker → isClosed state.pool = false →
      (hasQueue state.pool = true ∨ permits state.pool < state.requested party) →
      state.requested party ≤ maxPermits width) :
    TurnedBy width n state (tryNext width state party attempt state.pool) party .advance := by
  -- the attempt goes on with what it has
  have goes {pc' : Pc ι γ} (silent' : publishesValueAt pc' = none)
      (tries' : nodeAt pc' = attempt.node) (free : waitsAt pc' (state.signal party).value = false) :
      TurnedBy width n state (state.goto party pc') party .advance := by
    refine .goto source rfl rfl ⟨silent.1, silent.2, silent'⟩ ?_
    show (sleeping ι γ width n).Turn _ _ _ _ _ _ (nodeAt pc) (nodeAt pc')
    rw [tries, tries']
    rcases attempt.node_polls with apart | ⟨waker, polls⟩
    · rw [apart]
      exact .apart
    · rw [polls]
      exact .same rfl NodeRole.noConfusion rfl rfl fun given => never (free.symm.trans given)
  have refuses (mode : Mode) : TurnedBy width n state (refused state party mode) party .advance :=
    refused_turned source silent
  unfold tryNext
  split
  · cases attempt with
    | tryAcquire | acquireSync => exact .apart source rfl rfl ⟨silent.1, silent.2, rfl⟩ rfl
    | acquireSyncSlow => exact refuses .wait
    | pollAcquire waker => exact goes rfl rfl rfl
    | pollAcquireSlow waker => exact refuses (.poll waker)
  · rename_i opened
    split
    · rename_i none
      simp only [Bool.or_eq_true, decide_eq_true_eq] at none
      cases attempt with
      | tryAcquire | acquireSync => exact .apart source rfl rfl ⟨silent.1, silent.2, rfl⟩ rfl
      | acquireSyncSlow => exact enqueueWait_turned source silent
      | pollAcquire waker => exact goes rfl rfl rfl
      | pollAcquireSlow waker =>
        exact enqueuePoll_turned source silent tries rfl
          (bounded waker rfl (Bool.eq_false_iff.mpr opened) none)
    · exact goes rfl rfl rfl

end

theorem tryCas_turned {attempt : Attempt} {cur : ℕ} (source : state.pc party = .tryCas attempt cur)
    (bounded : state.pool ≠ cur → ∀ waker, attempt = .pollAcquireSlow waker →
      isClosed state.pool = false →
      (hasQueue state.pool = true ∨ permits state.pool < state.requested party) →
      state.requested party ≤ maxPermits width) :
    TurnedBy width n state (tryCas width state party attempt cur) party .advance := by
  unfold tryCas
  split
  · unfold tryTaken
    cases attempt <;> exact acquired_turned source ⟨rfl, rfl⟩
  · rename_i changed
    exact tryNext_turned source ⟨rfl, rfl⟩ rfl (bounded changed)

theorem releaseAdd_turned {m : ℕ} (owned : Owned state)
    (source : state.pc party = .releaseAdd m after) :
    TurnedBy width n state (releaseAdd width state party m after) party .advance := by
  have complete : Complete after (state.signal party).value := complete_of_own owned source rfl
  unfold releaseAdd
  dsimp only
  split
  · split
    · exact .apart source rfl rfl ⟨rfl, rfl, rfl⟩ rfl
    · exact returns_turned source ⟨rfl, rfl⟩ finish_waiters (finishPc_ends complete)
  · exact returns_turned source ⟨rfl, rfl⟩ releasePanic_waiters (finishPc_ends complete)

theorem drainLock_turned (owned : Owned state) (source : state.pc party = .drainLock after)
    (stepped : drainLock state party after = some next) :
    TurnedBy width n state next party .advance := by
  have complete : Complete after (state.signal party).value := complete_of_own owned source rfl
  unfold drainLock at stepped
  split at stepped <;> cases stepped
  · exact returns_turned source ⟨rfl, rfl⟩ finish_waiters (finishPc_ends complete)
  · exact .apart source rfl rfl ⟨rfl, rfl, rfl⟩ rfl

theorem drainServe_turned {available : ℕ} (source : state.pc party = .drainServe after available) :
    TurnedBy width n state (drainServe state party after available) party .advance := by
  obtain ⟨pc', target, silent, apart⟩ : ∃ pc' : Pc ι γ,
      (drainServe state party after available).pc = Function.update state.pc party pc' ∧
      publishesValueAt pc' = none ∧ nodeAt pc' = .apart := by
    unfold drainServe
    dsimp only
    split <;> exact ⟨_, rfl, rfl, rfl⟩
  have self : (drainServe state party after available).pc party = pc' := by
    rw [target, Function.update_self]
  have quiet : takesSlotAt (state.pc party) = none ∧ publishesValueAt (state.pc party) = none := by
    rw [source]
    exact ⟨rfl, rfl⟩
  refine ⟨fun other different => ?_, fun other _ _ => serve_value _ _ _ other,
    fun other _ _ => serve_reads (fun _ _ => rfl) _ _ _ other, fun node publishes => ?_,
    fun node => ?_, fun _ _ => rfl, ?_⟩
  · exact (congrFun target other).trans (Function.update_of_ne different _ _)
  · exact absurd (quiet.2.symm.trans publishes) (by rintro ⟨⟩)
  · show publishesValueAt ((drainServe state party after available).pc party) = some node ↔
      takesSlotAt (state.pc party) = some node
    rw [self, silent, quiet.1]
  · show (sleeping ι γ width n).Turn _ _ _ _ _ _ _
      (nodeAt ((drainServe state party after available).pc party))
    rw [self, apart]
    exact .apart

theorem enqueueNext_turned {pool cur : ℕ} (source : state.pc party = pc) (silent : Silent pc)
    (armed : nodeAt pc = .armed mode) :
    TurnedBy width n state ({ state with pool := pool }.goto party
      (enqueueNext state party mode cur)) party .advance := by
  unfold enqueueNext
  split
  · exact .apart source rfl rfl ⟨silent.1, silent.2, rfl⟩ rfl
  · split <;> exact .armed source rfl rfl ⟨silent.1, silent.2, rfl⟩ rfl armed rfl

theorem enqueuePush_turned (owned : Owned state) (source : state.pc party = .enqueuePush mode) :
    TurnedBy width n state (enqueuePush state party mode) party .advance := by
  have value : (state.signal party).value = armedValue mode :=
    owned.owned party _ (congrArg ownValue source)
  exact .goto source rfl rfl ⟨rfl, rfl, rfl⟩ (.push rfl rfl (value ▸ armedValue_unsignalled mode))

/-- **The end of every critical section.** -/
theorem unlocked_turned {back : Unlock ι γ} (owned : Owned state) (source : state.pc party = pc)
    (silent : Silent pc)
    (role : nodeAt pc = back.node) (waits : ∀ value, waitsAt pc value = back.waits value)
    (own : ownValue pc = back.own) :
    TurnedBy width n state (unlocked { state with queue := state.queue.unlock } party back)
      party .advance := by
  -- the wait goes on at the point after the unlock
  have stays {pc' : Pc ι γ} (silent' : publishesValueAt pc' = none) (role' : nodeAt pc' = back.node)
      (upright : back.node ≠ .parked) (waits' : ∀ value, waitsAt pc' value = back.waits value) :
      TurnedBy width n state ({ state with queue := state.queue.unlock }.goto party pc')
        party .advance := by
    refine .goto source rfl rfl ⟨silent.1, silent.2, silent'⟩ ?_
    show (sleeping ι γ width n).Turn _ _ _ _ _ _ (nodeAt pc) (nodeAt pc')
    rw [role, role']
    refine .same rfl upright rfl rfl fun given => ?_
    exact (waits _).trans ((waits' _).symm.trans given)
  cases back with
  | acquired mode => exact acquired_turned source silent
  | closed mode => exact refused_turned source silent
  | enqueued mode first =>
    cases mode with
    | wait => cases first <;> exact stays rfl rfl NodeRole.noConfusion fun _ => rfl
    | poll waker => exact stays rfl rfl NodeRole.noConfusion fun _ => rfl
  | drained popped after =>
    exact returns_turned source silent signalNext_waiters
      (signalPc_ends false popped (complete_of_own owned source own))
  | closing popped =>
    exact returns_turned source silent signalNext_waiters
      (signalPc_ends true popped (complete_of_none rfl))
  | cancelFound granted headChanged =>
    unfold unlocked
    dsimp only
    split
    · exact returns_turned source silent release_waiters
        (releasePc_ends granted (complete_of_none rfl))
    · split <;> exact .apart source rfl rfl ⟨silent.1, silent.2, rfl⟩ rfl
  | cancelMissing => exact stays rfl rfl NodeRole.noConfusion fun _ => rfl

theorem unlock_turned {back : Unlock ι γ} (owned : Owned state)
    (source : state.pc party = .unlock back) :
    TurnedBy width n state (unlock width state party back) party .advance := by
  unfold unlock
  split
  · refine .goto source rfl rfl ⟨rfl, rfl, rfl⟩ (.same rfl ?_ rfl rfl id)
    show back.node ≠ .parked
    rcases back.node_linked with role | role | ⟨mode, role⟩ <;> rw [role]
    · exact NodeRole.noConfusion
    · exact NodeRole.noConfusion
    · cases mode <;> exact NodeRole.noConfusion
  · exact unlocked_turned owned source ⟨rfl, rfl⟩ rfl (fun _ => rfl) rfl

theorem signalPublish_turned {node : ι} {rest : List ι} {closed : Bool} (owned : Owned state)
    (source : state.pc party = .signalPublish node rest closed after) :
    TurnedBy width n state (signalPublish state party node rest closed after) party .advance := by
  have own : party ≠ node := by
    rintro rfl
    exact owned.apart party (by rw [source]; exact List.mem_cons_self)
  have final : (signalValue closed).isFinal = true := by cases closed <;> rfl
  have complete : Complete after (state.signal party).value := complete_of_own owned source rfl
  have pcs : (signalPublish state party node rest closed after).pc =
      Function.update state.pc party (signalPc closed after rest) :=
        congrArg Waiters.pc signalNext_waiters
  have signals : (signalPublish state party node rest closed after).signal =
      Function.update state.signal node ((state.signal node).setValue (signalValue closed)) :=
    congrArg Waiters.signal signalNext_waiters
  have ends : Ends (state.signal party).value (signalPc closed after rest : Pc ι γ) :=
    signalPc_ends closed rest complete
  refine .publish source pcs final signals rfl rfl ends.1 rfl ?_
  have kept : (signalPublish state party node rest closed after).signal party =
      state.signal party := by
    rw [signals, Function.update_of_ne own]
  show (sleeping ι γ width n).Turn _ _ _
    ((signalPublish state party _ rest closed after).signal party) _ _ _ _
  rw [kept]
  exact ends.turn

theorem finishSync_turned (same : before.pc = state.pc)
    (signals : before.signal = Function.update state.signal party written)
    (source : state.pc party = pc) (silent : Silent pc) (value : SignalValue) :
    TurnedBy width n state (finishSync before party value) party .advance := by
  unfold finishSync
  split
  · have result : (acquired before party .wait).waiters =
        ⟨before.queue, Function.update state.signal party written,
        Function.update state.pc party .idle⟩ := by
      rw [← same, ← signals]
      rfl
    exact ends_turned source silent result ⟨rfl, .inl rfl⟩
  · have result : (release before party (before.granted party) .closedWait).waiters =
        ⟨before.queue, Function.update state.signal party written,
          Function.update state.pc party (releasePc (before.granted party) .closedWait)⟩ := by
      rw [release_waiters, same, signals]
    exact ends_turned source silent result (releasePc_ends _ (complete_of_none rfl))

theorem syncSpin_turned (source : state.pc party = .syncSpin) :
    TurnedBy width n state (syncSpin state party) party .advance := by
  unfold syncSpin
  dsimp only
  split
  · exact finishSync_turned rfl (Function.update_eq_self party _).symm source ⟨rfl, rfl⟩ _
  · exact .goto source rfl rfl ⟨rfl, rfl, rfl⟩ (.same rfl NodeRole.noConfusion rfl rfl fun _ => rfl)

theorem syncSwap_turned (source : state.pc party = .syncSwap) :
    TurnedBy width n state (syncSwap state party) party .advance := by
  unfold syncSwap
  dsimp only
  split
  · refine finishSync_turned ?_ rfl source ⟨rfl, rfl⟩ _
    rfl
  · rename_i fresh
    exact .own source rfl rfl ⟨rfl, rfl, rfl⟩ (.sleep rfl rfl (Bool.eq_false_iff.mpr fresh) rfl)

theorem syncPark_turned (source : state.pc party = .syncPark)
    (stepped : syncPark state party = some next) : TurnedBy width n state next party .advance := by
  unfold syncPark at stepped
  dsimp only at stepped
  split at stepped <;> cases stepped
  exact finishSync_turned rfl (Function.update_eq_self party _).symm source ⟨rfl, rfl⟩ _

/-- The end of a poll on a final value. -/
theorem pollFinal_turned {waker : Waker} (source : state.pc party = pc) (silent : Silent pc) :
    TurnedBy width n state (pollFinal state party waker (state.signal party).value) party move := by
  unfold pollFinal
  split
  · rename_i returned
    have result : ((state.report party .polledAfterCompletion).goto party .future).waiters =
        ⟨state.queue, state.signal, Function.update state.pc party .future⟩ := rfl
    exact returns_turned source silent result ⟨rfl, .inr ⟨rfl, returned⟩⟩
  · split
    · have complete :
          Complete (.closedPoll : After γ) ((state.signal party).setValue .returned).value :=
        fun own relies => Option.some.inj relies
      exact ends_turned source silent release_waiters (releasePc_ends _ complete)
    · exact acquired_turned source silent

theorem rearmRegister_turned {waker : Waker} (source : state.pc party = .rearmRegister waker) :
    TurnedBy width n state (rearmRegister state party waker) party .advance := by
  unfold rearmRegister
  dsimp only
  split
  · rename_i armed
    exact .own source rfl rfl ⟨rfl, rfl, rfl⟩
      (.rearm rfl rfl (full_of_armed armed) (storeAsync_slot _ _) rfl id)
  · rename_i found
    have empty : (state.signal party).waker = .none := (storeAsync_wasEmpty_iff _ _).mp found
    exact .own source rfl rfl ⟨rfl, rfl, rfl⟩ (.refill rfl (by rintro _ ⟨⟩) empty rfl id)

theorem rearmLoad_turned {waker : Waker} (source : state.pc party = .rearmLoad waker) :
    TurnedBy width n state (rearmLoad state party waker) party .advance := by
  unfold rearmLoad
  dsimp only
  split
  · exact pollFinal_turned source ⟨rfl, rfl⟩
  · rename_i fresh
    exact .goto source rfl rfl ⟨rfl, rfl, rfl⟩ (.wakeSelf rfl (Bool.eq_false_iff.mpr fresh) rfl id)

theorem dropLoad_turned (source : state.pc party = .dropLoad) :
    TurnedBy width n state (dropLoad state party) party .advance := by
  have release {m : ℕ} : TurnedBy width n state (release state party m .done) party .advance :=
    returns_turned source ⟨rfl, rfl⟩ release_waiters (releasePc_ends m (complete_of_none rfl))
  unfold dropLoad
  split
  case h_2 | h_3 => exact release
  all_goals exact .apart source rfl rfl ⟨rfl, rfl, rfl⟩ rfl

theorem cancelLock_turned (source : state.pc party = .cancelLock)
    (stepped : cancelLock state party = some next) :
    TurnedBy width n state next party .advance := by
  unfold cancelLock at stepped
  split at stepped <;> cases stepped
  · rename_i empty
    have unlinked : party ∉ state.queue.entries := by
      rw [(WaitQueue.lock_absent empty).2.1]
      exact List.not_mem_nil
    exact .goto source rfl rfl ⟨rfl, rfl, rfl⟩ (.missing unlinked rfl)
  · exact .apart source rfl rfl ⟨rfl, rfl, rfl⟩ rfl

theorem cancelRemove_turned (source : state.pc party = .cancelRemove) :
    TurnedBy width n state (cancelRemove state party) party .advance := by
  unfold cancelRemove
  dsimp only
  split
  · exact .apart source rfl rfl ⟨rfl, rfl, rfl⟩ rfl
  · rename_i unlinked
    exact .goto source rfl rfl ⟨rfl, rfl, rfl⟩ (.missing unlinked rfl)

theorem cancelWait_turned (source : state.pc party = .cancelWait)
    (stepped : cancelWait state party = some next) :
    TurnedBy width n state next party .advance := by
  unfold cancelWait at stepped
  dsimp only at stepped
  split at stepped <;> cases stepped
  exact returns_turned source ⟨rfl, rfl⟩ release_waiters (releasePc_ends _ (complete_of_none rfl))

theorem forgetNext_turned {m cur : ℕ} (source : state.pc party = pc) (silent : Silent pc) :
    TurnedBy width n state (forgetNext state party m cur) party .advance := by
  unfold forgetNext
  split
  · exact .apart source rfl rfl ⟨silent.1, silent.2, rfl⟩ rfl
  · exact .apart source rfl rfl ⟨silent.1, silent.2, rfl⟩ rfl

/-- **Every step inside a call is a turn.** -/
theorem advance_turned (owned : Owned state) (fits : bounded width state (party, .advance) = true)
    (stepped : advance width state party = some next) :
    TurnedBy width n state next party .advance := by
  cases source : state.pc party <;>
    simp only [advance, source, Option.some.injEq, reduceCtorEq] at stepped <;>
    simp only [bounded, source] at fits
  case drainLock => exact drainLock_turned owned source stepped
  case enqueueLock =>
    unfold enqueueLock at stepped
    split at stepped <;> cases stepped
    exact .armed source rfl rfl ⟨rfl, rfl, rfl⟩ rfl rfl rfl
  case syncPark => exact syncPark_turned source stepped
  case cancelLock => exact cancelLock_turned source stepped
  case cancelWait => exact cancelWait_turned source stepped
  case closeLock =>
    unfold closeLock at stepped
    split at stepped <;> cases stepped
    · exact .apart source rfl rfl ⟨rfl, rfl, rfl⟩ rfl
    · exact .apart source rfl rfl ⟨rfl, rfl, rfl⟩ rfl
  all_goals subst stepped
  case tryLoad attempt =>
    refine tryNext_turned source ⟨rfl, rfl⟩ rfl fun waker slow opened none => ?_
    subst slow
    rcases of_decide_eq_true fits with small | closed | ⟨empty, enough⟩
    · exact small
    · simp [opened] at closed
    · rcases none with queued | few
      · simp [empty] at queued
      · omega
  case tryCas attempt cur =>
    refine tryCas_turned source fun changed waker slow opened none => ?_
    subst slow
    rcases of_decide_eq_true fits with same | small | closed | ⟨empty, enough⟩
    · exact absurd same changed
    · exact small
    · simp [opened] at closed
    · rcases none with queued | few
      · simp [empty] at queued
      · omega
  case releaseAdd => exact releaseAdd_turned owned source
  case drainLoad | drainCas | closeFlag =>
    simp only [drainCas, drainTake, closeFlag]
    repeat' split
    all_goals exact .apart source rfl rfl ⟨rfl, rfl, rfl⟩ rfl
  case drainServe => exact drainServe_turned source
  case drainReturn | closePop => exact .apart source rfl rfl ⟨rfl, rfl, rfl⟩ rfl
  case enqueueFlag => exact enqueueNext_turned source ⟨rfl, rfl⟩ rfl
  case enqueueCas =>
    unfold enqueueCas
    split
    · exact .apart source rfl rfl ⟨rfl, rfl, rfl⟩ rfl
    · exact enqueueNext_turned source ⟨rfl, rfl⟩ rfl
  case enqueuePush => exact enqueuePush_turned owned source
  case unlock => exact unlock_turned owned source
  case unlockStore => exact unlocked_turned owned source ⟨rfl, rfl⟩ rfl (fun _ => rfl) rfl
  case signalTake => exact .take source rfl rfl rfl rfl rfl
  case signalPublish => exact signalPublish_turned owned source
  case syncSpin => exact syncSpin_turned source
  case syncSwap => exact syncSwap_turned source
  case rearmRegister => exact rearmRegister_turned source
  case rearmLoad => exact rearmLoad_turned source
  case dropLoad => exact dropLoad_turned source
  case cancelRemove => exact cancelRemove_turned source
  case forgetLoad => exact forgetNext_turned source ⟨rfl, rfl⟩
  case forgetCas =>
    unfold forgetCas
    split
    · exact .apart source rfl rfl ⟨rfl, rfl, rfl⟩ rfl
    · exact forgetNext_turned source ⟨rfl, rfl⟩

theorem poll_turned {waker : Waker} (source : state.pc party = .future) :
    TurnedBy width n state (poll state party waker) party (.poll waker) := by
  unfold poll
  dsimp only
  split
  · exact .goto source rfl rfl ⟨rfl, rfl, rfl⟩ (.begins rfl rfl never)
  · split
    · rename_i value
      exact .goto source rfl rfl ⟨rfl, rfl, rfl⟩
        (.looks (.inl ⟨rfl, rfl⟩) (congrArg SignalValue.isFinal value) rfl id)
    · exact pollFinal_turned source ⟨rfl, rfl⟩

theorem drop_turned (source : state.pc party = .future) :
    TurnedBy width n state (drop state party) party .drop := by
  unfold drop
  split <;> exact .apart source rfl rfl ⟨rfl, rfl, rfl⟩ rfl

/-- Splitting, merging and forgetting permits is a turn that leaves the party where it is. -/
theorem same_turned (same : next.waiters = state.waiters) (source : state.pc party = .idle) :
    TurnedBy width n state next party move := by
  have result :
      next.waiters = ⟨state.queue, state.signal, Function.update state.pc party .idle⟩ := by
    rw [same, ← source, Function.update_eq_self]
    rfl
  exact returns_turned source ⟨rfl, rfl⟩ result ⟨rfl, .inl rfl⟩

/-- **The beginning of every call is a turn.** -/
theorem begin_turned (stepped : begin width state party move = some next) :
    TurnedBy width n state next party move := by
  cases move <;> simp only [begin, beginRequest] at stepped
  case advance => cases stepped
  case poll waker =>
    split at stepped <;> cases stepped
    rename_i source
    exact poll_turned source
  case drop =>
    split at stepped <;> cases stepped
    rename_i source
    exact drop_turned source
  case tryAcquire | acquire | forgetPermits =>
    split at stepped <;> cases stepped
    rename_i source
    exact .apart source.1 rfl rfl ⟨rfl, rfl, rfl⟩ rfl
  case create =>
    split at stepped <;> cases stepped
    rename_i source
    exact .own source.1 rfl rfl ⟨rfl, rfl, rfl⟩ (.done rfl)
  case close =>
    split at stepped <;> cases stepped
    rename_i source
    exact .apart source rfl rfl ⟨rfl, rfl, rfl⟩ rfl
  case addPermits | dropPermit | downgrade =>
    split at stepped <;> cases stepped
    rename_i source
    exact returns_turned source.1 ⟨rfl, rfl⟩ release_waiters
      (releasePc_ends _ (complete_of_none rfl))
  case split =>
    split at stepped
    · rename_i source
      split at stepped <;> cases stepped <;> exact same_turned rfl source.1
    · cases stepped
  case merge | forget =>
    split at stepped <;> cases stepped
    rename_i source
    exact same_turned rfl source.1

end Turned

/-! ### Reachable states -/

section Reachable

variable {width : PointerWidth} {n : ℕ} {allowed : State ι γ → Label ι γ → State ι γ → Prop}

/-- A node comes into the queue only when its owner links it. -/
theorem linked_before {state next : State ι γ} {label : Label ι γ} {other : ι}
    (waiting : Waiting state)
    (fits : bounded width state label = true) (stepped : step width state label = some next)
    (given : other = label.1 → waitsAt (state.pc other) (state.signal other).value = true)
    (linked : other ∈ next.queue.entries) : other ∈ state.queue.entries := by
  obtain ⟨party, move⟩ := label
  have before (moves : MovesFrom state next party (state.pc party)) :
      other ∈ state.queue.entries := by
    obtain ⟨pc', moves⟩ := moves
    exact Sleeping.linked_before moves (fun self => self ▸ given self) linked
  unfold step at stepped
  split at stepped
  · rename_i advances
    obtain rfl : move = .advance := advances
    exact before (advance_moves (owned_of_waiting waiting) fits stepped)
  · rcases begin_moves stepped with same | moves
    · rw [show next.queue = state.queue from congrArg Waiters.queue same] at linked
      exact linked
    · exact before moves

/-- **The semaphore wakes whom it serves or turns away**, in the runs in which no poll panics. -/
theorem sound (waiting : ∀ {state}, (machine ι γ width n).ReachableBy allowed state → Waiting state)
    (fits : ∀ {state label next}, (machine ι γ width n).ReachableBy allowed state →
      allowed state label next →
      bounded width state label = true) : (sleeping ι γ width n).Sound allowed where
  start {state} initial party := by
    obtain ⟨-, kind, rfl⟩ := initial
    rfl
  queue {state} reach := ⟨state.queue, rfl, waiting reach⟩
  stays {state label next other} reach stepped permitted given stays :=
    linked_before (waiting reach) (fits reach permitted) stepped given stays
  turned {state label next} reach stepped permitted := by
    obtain ⟨party, move⟩ := label
    have fits := fits reach permitted
    have stepped : step width state (party, move) = some next := stepped
    unfold step at stepped
    split at stepped
    · rename_i advances
      obtain rfl : move = .advance := advances
      exact advance_turned (owned_of_waiting (waiting reach)) fits stepped
    · exact begin_turned stepped
  asleep {state party} _ parked stopped := by
    have source : state.pc party = .syncPark := eq_syncPark parked
    have stopped : advance width state party = none := stopped
    show (state.signal party).value.isFinal = false
    simpa [advance, source, syncPark] using stopped

end Reachable

end Xutex.Semaphore
