/-
**The notifier keeps the discipline of its wait queue.**

`discipline` declares the program points of the notifier to the general rules of `Waiters`, and
every step is one of the moves they allow. So in every reachable state each node that is given away
and not signalled is in the queue or in exactly one chain, and the tag-lock has one holder
(`waiting_of_reachable`).
-/

import Xutex.Core.Waiters
import Xutex.Notify.Model

set_option linter.unusedSectionVars false

namespace Xutex.Notify

open Concurrency Discipline

variable {ι : Type} [DecidableEq ι]

/-! ### The declared program points -/

/-- The popped nodes that an unlock leaves to be signalled. -/
def Unlock.chain : Unlock ι → List ι
  | .popped _ (some node) => [node]
  | .drained chain => chain
  | .completed _ | .enqueued _ | .popped _ none | .removed _ => []

/-- The node of the party that unlocks is given away. -/
def Unlock.waits : Unlock ι → SignalValue → Bool
  | .enqueued mode, value => modeWaits mode value
  | .removed false, _ => true
  | .completed _, _ | .popped _ _, _ | .drained _, _ | .removed true, _ => false

def chainOf : Pc ι → List ι
  | .unlock back | .unlockStore back => back.chain
  | .signalTake node rest _ | .signalPublish node rest _ => node :: rest
  | _ => []

def waitsAt : Pc ι → SignalValue → Bool
  | .future, value | .rearmRegister _, value | .rearmLoad _, value => valueWaits value
  | .unlock back, value | .unlockStore back, value => back.waits value
  | .waitSwap, _ | .waitPark, _ => true
  | .cancelLock, _ | .cancelRemove, _ | .cancelWait, _ => true
  | _, _ => false

def lockedAt : Pc ι → Bool
  | .enqueueFlag _ | .enqueueCas _ _ | .enqueuePush _ => true
  | .notifyPop _ | .broadcastLoad _ | .broadcastDrain _ => true
  | .unlock _ | .unlockStore _ | .cancelRemove => true
  | _ => false

def ownValue : Pc ι → Option SignalValue
  | .enqueueLock mode | .enqueueFlag mode | .enqueueCas mode _ | .enqueuePush mode =>
    some (armedValue mode)
  | _ => none

/-- **The notifier's program points**, as far as waiting is concerned. A waiter is signalled with
`SIGNAL_SIGNALED` or `SIGNAL_ALL`. -/
def discipline : Discipline ι (Pc ι) where
  chain := chainOf
  waits := waitsAt
  locked := lockedAt
  own := ownValue
  signals signal := decide (signal = .signaled ∨ signal = .all)
  signalsFinal {signal} kind := by
    rcases of_decide_eq_true kind with rfl | rfl <;> rfl
  signalledWaits {pc value signal} waits kind := by
    have given : valueWaits signal = true := by rcases of_decide_eq_true kind with rfl | rfl <;> rfl
    have mode (mode : Mode) : modeWaits mode signal = true := by
      cases mode <;> simp [modeWaits, given]
    cases pc <;> simp_all [waitsAt]
    all_goals rename Unlock ι => back
    all_goals cases back <;> simp_all [Unlock.waits]
    all_goals rename Bool => found
    all_goals cases found <;> simp_all
  signalerFree {pc} value busy := by
    cases pc <;> simp_all [chainOf, waitsAt]
    all_goals rename Unlock ι => back
    all_goals cases back <;> simp_all [Unlock.waits, Unlock.chain]
  ownFree {pc value} other own := by
    cases pc <;> simp_all [ownValue, waitsAt]

/-- The part of the state that waiting is about. -/
def State.waiters (state : State ι) : Waiters ι (Pc ι) := ⟨state.queue, state.signal, state.pc⟩

/-- The invariant of waiting, for the notifier. -/
abbrev Waiting (state : State ι) : Prop := discipline.Kept state.waiters

/-- The step is a move of `party` from `pc`. -/
abbrev MovesFrom (state next : State ι) (party : ι) (pc : Pc ι) : Prop :=
  ∃ pc', discipline.Moves state.waiters next.waiters party pc pc'

/-! ### Every step is a move -/

section Moves

variable {width : PointerWidth} {state next : State ι} {party : ι} {pc : Pc ι} {mode : Mode}

/-- A point outside of everything: no chain, no lock, no node given away. -/
structure Plain (pc : Pc ι) : Prop where
  chain : chainOf pc = []
  free : lockedAt pc = false
  waits : ∀ value, waitsAt pc value = false

theorem Plain.goto {before : State ι} {pc' : Pc ι} (same : before.waiters = state.waiters)
    (source : state.pc party = pc) (plain : Plain pc) (plain' : Plain pc')
    (own : ownValue pc' = none) : MovesFrom state (before.goto party pc') party pc := by
  have result : (before.goto party pc').waiters =
      ⟨state.queue, state.signal, Function.update state.pc party pc'⟩ := by
    have queue : before.queue = state.queue := congrArg Waiters.queue same
    have signal : before.signal = state.signal := congrArg Waiters.signal same
    have pcs : before.pc = state.pc := congrArg Waiters.pc same
    rw [← queue, ← signal, ← pcs]
    rfl
  exact ⟨pc', .goto source result (plain'.chain.trans plain.chain.symm)
    (plain'.free.trans plain.free.symm) ((plain'.waits _).trans (plain.waits _).symm) (.inl own)⟩

theorem completed_moves (source : state.pc party = pc) (plain : Plain pc) (word consumed : ℕ) :
    MovesFrom state (completed { state with word := word, consumed := consumed } party mode) party
      pc := by
  cases mode with
  | wait =>
    exact ⟨.idle, .goto source rfl plain.chain.symm plain.free.symm (plain.waits _).symm (.inl rfl)⟩
  | poll waker =>
    exact ⟨.future, .write source rfl plain.chain.symm plain.free.symm (plain.waits _) rfl
      (.inl rfl)⟩

theorem tryTrue_moves {attempt : Attempt} (source : state.pc party = pc) (plain : Plain pc)
    (word consumed : ℕ) :
    MovesFrom state (tryTrue { state with word := word, consumed := consumed } party attempt) party
      pc := by
  cases attempt <;> exact completed_moves source plain word consumed

theorem tryNext_moves {attempt : Attempt} {cur : ℕ} (source : state.pc party = pc)
    (plain : Plain pc) : MovesFrom state (tryNext state party attempt cur) party pc := by
  unfold tryNext
  split
  · exact tryTrue_moves source plain state.word state.consumed
  · split
    · exact Plain.goto rfl source plain ⟨rfl, rfl, fun _ => rfl⟩ rfl
    · cases attempt with
      | wait =>
        exact ⟨.enqueueLock .wait, .write source rfl plain.chain.symm plain.free.symm
          (plain.waits _) rfl (.inr rfl)⟩
      | poll waker => exact Plain.goto rfl source plain ⟨rfl, rfl, fun _ => rfl⟩ rfl
      | pollSlow waker =>
        exact ⟨.enqueueLock (.poll waker), .write source rfl plain.chain.symm plain.free.symm
          (plain.waits _) rfl (.inr rfl)⟩

theorem tryCas_moves {attempt : Attempt} {cur : ℕ} (source : state.pc party = .tryCas attempt cur) :
    MovesFrom state (tryCas width state party attempt cur) party (.tryCas attempt cur) := by
  unfold tryCas
  split
  · exact tryTrue_moves source ⟨rfl, rfl, fun _ => rfl⟩ _ _
  · exact tryNext_moves source ⟨rfl, rfl, fun _ => rfl⟩

theorem enqueueLock_moves (source : state.pc party = .enqueueLock mode)
    (stepped : enqueueLock state party mode = some next) :
    MovesFrom state next party (.enqueueLock mode) := by
  unfold enqueueLock at stepped
  split at stepped <;> cases stepped
  rename_i held result
  exact ⟨_, .lock source result rfl rfl rfl rfl (.inr rfl)⟩

/-- The three ways on from a read of `enqueue_or_complete`. -/
theorem enqueueNext_moves {cur word : ℕ} (source : state.pc party = pc) (chain : chainOf pc = [])
    (held : lockedAt pc = true) (waits : ∀ value, waitsAt pc value = false)
    (own : ownValue pc = some (armedValue mode)) :
    MovesFrom state ({ state with word := word }.goto party (enqueueNext state party mode cur))
      party pc := by
  unfold enqueueNext
  split
  · exact ⟨_, .goto source rfl chain.symm held.symm (waits _).symm (.inl rfl)⟩
  · split
    · exact ⟨_, .goto source rfl chain.symm held.symm (waits _).symm (.inr own.symm)⟩
    · exact ⟨_, .goto source rfl chain.symm held.symm (waits _).symm (.inr own.symm)⟩

theorem enqueueCas_moves {cur : ℕ} (source : state.pc party = .enqueueCas mode cur) :
    MovesFrom state (enqueueCas width state party mode cur) party (.enqueueCas mode cur) := by
  unfold enqueueCas
  split
  · exact ⟨.unlock (.completed mode), .goto source rfl rfl rfl rfl (.inl rfl)⟩
  · exact enqueueNext_moves source rfl rfl (fun _ => rfl) rfl

theorem enqueuePush_moves (waiting : Waiting state) (source : state.pc party = .enqueuePush mode) :
    MovesFrom state (enqueuePush state party mode) party (.enqueuePush mode) := by
  have value : (state.signal party).value = armedValue mode :=
    waiting.owned party _ (congrArg ownValue source)
  refine ⟨.unlock (.enqueued mode), .push source rfl rfl rfl rfl ?_ ?_ rfl⟩
  · rw [Signal.setAux_value, value]
    exact modeWaits_armedValue mode
  · rw [Signal.setAux_value, value]
    exact armedValue_unsignalled mode

theorem notifyLoad_moves {passed : Bool} (source : state.pc party = .notifyLoad passed) :
    MovesFrom state (notifyLoad state party passed) party (.notifyLoad passed) := by
  unfold notifyLoad
  split
  · exact Plain.goto rfl source ⟨rfl, rfl, fun _ => rfl⟩ ⟨rfl, rfl, fun _ => rfl⟩ rfl
  · split
    · exact Plain.goto rfl source ⟨rfl, rfl, fun _ => rfl⟩ ⟨rfl, rfl, fun _ => rfl⟩ rfl
    · exact Plain.goto rfl source ⟨rfl, rfl, fun _ => rfl⟩ ⟨rfl, rfl, fun _ => rfl⟩ rfl

theorem notifyCas_moves {passed : Bool} {cur : ℕ}
    (source : state.pc party = .notifyCas passed cur) :
    MovesFrom state (notifyCas state party passed cur) party (.notifyCas passed cur) := by
  unfold notifyCas
  split
  · exact ⟨.idle, .goto source rfl rfl rfl rfl (.inl rfl)⟩
  · exact ⟨.notifySlow passed, .goto source rfl rfl rfl rfl (.inl rfl)⟩

theorem notifyNext_moves {passed : Bool} {cur : ℕ} (source : state.pc party = pc)
    (plain : Plain pc) : MovesFrom state (notifyNext state party passed cur) party pc := by
  unfold notifyNext
  split
  · exact Plain.goto rfl source plain ⟨rfl, rfl, fun _ => rfl⟩ rfl
  · split
    · exact Plain.goto rfl source plain ⟨rfl, rfl, fun _ => rfl⟩ rfl
    · exact Plain.goto rfl source plain ⟨rfl, rfl, fun _ => rfl⟩ rfl

theorem notifySlowCas_moves {passed : Bool} {cur : ℕ}
    (source : state.pc party = .notifySlowCas passed cur) :
    MovesFrom state (notifySlowCas state party passed cur) party (.notifySlowCas passed cur) := by
  unfold notifySlowCas
  split
  · exact ⟨.idle, .goto source rfl rfl rfl rfl (.inl rfl)⟩
  · exact notifyNext_moves source ⟨rfl, rfl, fun _ => rfl⟩

theorem notifyLock_moves {passed : Bool} (source : state.pc party = .notifyLock passed)
    (stepped : notifyLock state party passed = some next) :
    MovesFrom state next party (.notifyLock passed) := by
  unfold notifyLock at stepped
  split at stepped <;> cases stepped
  · exact ⟨_, .goto source rfl rfl rfl rfl (.inl rfl)⟩
  · rename_i held result
    exact ⟨_, .lock source result rfl rfl rfl rfl (.inl rfl)⟩

theorem notifyPop_moves {passed : Bool} (source : state.pc party = .notifyPop passed) :
    MovesFrom state (notifyPop state party passed) party (.notifyPop passed) := by
  unfold notifyPop
  split
  · exact ⟨_, .goto source rfl rfl rfl rfl (.inl rfl)⟩
  · rename_i front rest linked
    have front : state.waiters.queue.entries = [front] ++ rest := linked
    exact ⟨_, .pop source rfl front (fun _ => rfl) rfl rfl rfl (.inl rfl)⟩

theorem broadcastAdd_moves (source : state.pc party = .broadcastAdd) :
    MovesFrom state (broadcastAdd width state party) party .broadcastAdd := by
  unfold broadcastAdd
  split
  · exact ⟨_, .goto source rfl rfl rfl rfl (.inl rfl)⟩
  · exact ⟨_, .goto source rfl rfl rfl rfl (.inl rfl)⟩

theorem broadcastLock_moves {prev : ℕ} (source : state.pc party = .broadcastLock prev)
    (stepped : broadcastLock state party prev = some next) :
    MovesFrom state next party (.broadcastLock prev) := by
  unfold broadcastLock at stepped
  split at stepped <;> cases stepped
  · exact ⟨_, .goto source rfl rfl rfl rfl (.inl rfl)⟩
  · rename_i held result
    exact ⟨_, .lock source result rfl rfl rfl rfl (.inl rfl)⟩

theorem broadcastDrain_moves {liveGen : ℕ} (source : state.pc party = .broadcastDrain liveGen) :
    MovesFrom state (broadcastDrain state party liveGen) party (.broadcastDrain liveGen) := by
  have front : state.waiters.queue.entries =
      state.queue.entries.takeWhile (fun node => decide ((state.signal node).aux ≠ liveGen)) ++
      state.queue.entries.dropWhile (fun node => decide ((state.signal node).aux ≠ liveGen)) :=
    List.takeWhile_append_dropWhile.symm
  exact ⟨_, .pop source rfl front (fun _ => rfl) rfl rfl rfl (.inl rfl)⟩

/-- Where `signal_all` goes on. -/
def signalPc (all : Bool) : List ι → Pc ι
  | [] => .idle
  | node :: rest => .signalTake node rest all

theorem signalNext_waiters {all : Bool} {chain : List ι} :
    (signalNext state party all chain).waiters =
      ⟨state.queue, state.signal, Function.update state.pc party (signalPc all chain)⟩ := by
  cases chain <;> rfl

theorem signalPc_chain {all : Bool} {chain : List ι} : chainOf (signalPc all chain) = chain := by
  cases chain <;> rfl

theorem signalPc_free {all : Bool} {chain : List ι} : lockedAt (signalPc all chain) = false := by
  cases chain <;> rfl

theorem signalPc_waits {all : Bool} {chain : List ι} {value : SignalValue} :
    waitsAt (signalPc all chain) value = false := by
  cases chain <;> rfl

theorem signalPc_own {all : Bool} {chain : List ι} : ownValue (signalPc all chain) = none := by
  cases chain <;> rfl

theorem signalPublish_moves {node : ι} {rest : List ι} {all : Bool} (waiting : Waiting state)
    (source : state.pc party = .signalPublish node rest all) :
    MovesFrom state (signalPublish state party node rest all) party
      (.signalPublish node rest all) := by
  have kind : (discipline (ι := ι)).signals (signalValue all) = true := by cases all <;> rfl
  exact ⟨_, .publish waiting source signalNext_waiters kind
    (congrArg (node :: ·) signalPc_chain.symm) signalPc_free signalPc_waits (.inl signalPc_own)⟩

/-- **The end of every critical section.** -/
theorem unlocked_moves {back : Unlock ι} (source : state.pc party = pc)
    (chain : chainOf pc = back.chain)
    (held : lockedAt pc = true) (waits : ∀ value, waitsAt pc value = back.waits value) :
    MovesFrom state (unlocked { state with queue := state.queue.unlock } party back) party pc := by
  have goto (pc' : Pc ι) (chain' : chainOf pc' = back.chain) (free : lockedAt pc' = false)
      (waits' : waitsAt pc' (state.signal party).value = back.waits (state.signal party).value)
      (own' : ownValue pc' = none) :
      MovesFrom state ({ state with queue := state.queue.unlock }.goto party pc') party pc :=
    ⟨pc', .unlock source rfl (chain'.trans chain.symm) held free (waits'.trans (waits _).symm)
      (.inl own')⟩
  cases back with
  | completed mode =>
    cases mode with
    | wait => exact ⟨.idle, .unlock source rfl chain.symm held rfl (waits _).symm (.inl rfl)⟩
    | poll waker =>
      exact ⟨.future, .unlockWrite source rfl chain.symm held rfl (waits _) rfl (.inl rfl)⟩
  | enqueued mode =>
    cases mode with
    | wait => exact goto _ rfl rfl rfl rfl
    | poll waker => exact goto _ rfl rfl rfl rfl
  | popped passed node =>
    cases node with
    | none => exact goto _ rfl rfl rfl rfl
    | some node => exact goto _ rfl rfl rfl rfl
  | drained popped =>
    exact ⟨_, .unlock source signalNext_waiters (signalPc_chain.trans chain.symm) held signalPc_free
      (signalPc_waits.trans (waits _).symm) (.inl signalPc_own)⟩
  | removed found =>
    cases found with
    | false => exact goto _ rfl rfl rfl rfl
    | true => exact goto _ rfl rfl rfl rfl

theorem unlock_moves {back : Unlock ι} (source : state.pc party = .unlock back) :
    MovesFrom state (unlock width state party back) party (.unlock back) := by
  unfold unlock
  split
  · exact ⟨.unlockStore back, .goto source rfl rfl rfl rfl (.inl rfl)⟩
  · exact unlocked_moves source rfl rfl fun _ => rfl

theorem waitSwap_moves (source : state.pc party = .waitSwap) :
    MovesFrom state (waitSwap state party) party .waitSwap := by
  unfold waitSwap
  dsimp only
  split
  · rename_i final
    exact ⟨.idle, .consumeWrite source rfl rfl rfl rfl final rfl (.inl rfl)⟩
  · rename_i fresh
    exact ⟨.waitPark, .touch source rfl rfl rfl rfl (.inr ⟨Bool.eq_false_iff.mpr fresh, rfl⟩) rfl⟩

theorem waitPark_moves (source : state.pc party = .waitPark)
    (stepped : waitPark state party = some next) : MovesFrom state next party .waitPark := by
  unfold waitPark at stepped
  dsimp only at stepped
  split at stepped <;> cases stepped
  rename_i final
  exact ⟨.idle, .consume source rfl rfl rfl rfl final rfl rfl⟩

/-- The end of a poll on a final value, from a point where the wait is read off the value. -/
theorem pollFinal_moves {waker : Waker} (source : state.pc party = pc) (chain : chainOf pc = [])
    (free : lockedAt pc = false) (waits : ∀ value, waitsAt pc value = valueWaits value)
    (final : (state.signal party).value.isFinal = true) :
    MovesFrom state (pollFinal state party waker (state.signal party).value) party pc := by
  unfold pollFinal
  split
  · exact ⟨.future, .goto source rfl chain.symm free.symm (waits _).symm (.inl rfl)⟩
  · rename_i unreturned
    have waited : waitsAt pc (state.signal party).value = true := by
      rw [waits]
      revert final unreturned
      cases (state.signal party).value <;> simp [SignalValue.isFinal, valueWaits]
    exact ⟨.future, .consumeWrite source rfl chain.symm free.symm waited final rfl (.inl rfl)⟩

theorem poll_moves {waker : Waker} (source : state.pc party = .future) :
    MovesFrom state (poll state party waker) party .future := by
  unfold poll
  dsimp only
  split
  · rename_i fresh
    exact ⟨.tryLoad (.poll waker), .goto source rfl rfl rfl (congrArg valueWaits fresh).symm
      (.inl rfl)⟩
  · rename_i started
    split
    · exact ⟨.rearmRegister waker, .goto source rfl rfl rfl rfl (.inl rfl)⟩
    · rename_i signalled
      refine pollFinal_moves source rfl rfl (fun _ => rfl) ?_
      revert started signalled
      cases (state.signal party).value <;> simp [SignalValue.isFinal]

theorem rearmRegister_moves {waker : Waker} (source : state.pc party = .rearmRegister waker) :
    MovesFrom state (rearmRegister state party waker) party (.rearmRegister waker) := by
  unfold rearmRegister
  dsimp only
  split
  · exact ⟨.future, .touch source rfl rfl rfl rfl (.inl rfl) rfl⟩
  · exact ⟨.rearmLoad waker, .touch source rfl rfl rfl rfl (.inl rfl) rfl⟩

theorem rearmLoad_moves {waker : Waker} (source : state.pc party = .rearmLoad waker) :
    MovesFrom state (rearmLoad state party waker) party (.rearmLoad waker) := by
  unfold rearmLoad
  dsimp only
  split
  · rename_i final
    exact pollFinal_moves source rfl rfl (fun _ => rfl) final
  · exact ⟨.future, .goto source rfl rfl rfl rfl (.inl rfl)⟩

/-- A dropped future that has read its signal takes its node back. -/
theorem passOn_moves (source : state.pc party = pc) (chain : chainOf pc = [])
    (free : lockedAt pc = false) (waited : waitsAt pc (state.signal party).value = true)
    (final : (state.signal party).value.isFinal = true) :
    MovesFrom state (passOn state party (state.signal party).value) party pc := by
  unfold passOn
  split
  · exact ⟨_, .consume source rfl chain.symm free.symm waited final rfl rfl⟩
  · exact ⟨_, .consume source rfl chain.symm free.symm waited final rfl rfl⟩

theorem drop_moves (source : state.pc party = .future) :
    MovesFrom state (drop state party) party .future := by
  unfold drop
  split
  case h_1 value | h_2 value =>
    exact ⟨.idle, .goto source rfl rfl rfl (congrArg valueWaits value).symm (.inl rfl)⟩
  case h_3 value =>
    exact ⟨.cancelLock, .goto source rfl rfl rfl (congrArg valueWaits value).symm (.inl rfl)⟩
  case h_4 fresh returned waiting =>
    refine passOn_moves source rfl rfl ?_ ?_
    · show valueWaits _ = true
      revert fresh returned
      cases (state.signal party).value <;> simp [valueWaits]
    · revert fresh waiting
      cases (state.signal party).value <;> simp [SignalValue.isFinal]

theorem cancelLock_moves (source : state.pc party = .cancelLock)
    (stepped : cancelLock state party = some next) : MovesFrom state next party .cancelLock := by
  unfold cancelLock at stepped
  split at stepped <;> cases stepped
  · exact ⟨.cancelWait, .goto source rfl rfl rfl rfl (.inl rfl)⟩
  · rename_i held result
    exact ⟨_, .lock source result rfl rfl rfl rfl (.inl rfl)⟩

theorem cancelRemove_moves (source : state.pc party = .cancelRemove) :
    MovesFrom state (cancelRemove state party) party .cancelRemove := by
  unfold cancelRemove
  split
  · rename_i member
    exact ⟨_, .remove source member rfl rfl rfl rfl rfl⟩
  · exact ⟨.unlock (.removed false), .goto source rfl rfl rfl rfl (.inl rfl)⟩

theorem cancelWait_moves (source : state.pc party = .cancelWait)
    (stepped : cancelWait state party = some next) : MovesFrom state next party .cancelWait := by
  unfold cancelWait at stepped
  dsimp only at stepped
  split at stepped <;> cases stepped
  rename_i final
  exact passOn_moves source rfl rfl rfl final

/-- **Every step inside a call is a move.** -/
theorem advance_moves (waiting : Waiting state) (stepped : advance width state party = some next) :
    MovesFrom state next party (state.pc party) := by
  cases source : state.pc party <;>
    simp only [advance, source, Option.some.injEq, reduceCtorEq] at stepped
  case enqueueLock => exact enqueueLock_moves source stepped
  case notifyLock => exact notifyLock_moves source stepped
  case broadcastLock => exact broadcastLock_moves source stepped
  case waitPark => exact waitPark_moves source stepped
  case cancelLock => exact cancelLock_moves source stepped
  case cancelWait => exact cancelWait_moves source stepped
  all_goals subst stepped
  case tryLoad => exact tryNext_moves source ⟨rfl, rfl, fun _ => rfl⟩
  case tryCas => exact tryCas_moves source
  case enqueueFlag => exact enqueueNext_moves source rfl rfl (fun _ => rfl) rfl
  case enqueueCas => exact enqueueCas_moves source
  case enqueuePush => exact enqueuePush_moves waiting source
  case notifyLoad => exact notifyLoad_moves source
  case notifyCas => exact notifyCas_moves source
  case notifySlow => exact notifyNext_moves source ⟨rfl, rfl, fun _ => rfl⟩
  case notifyPop => exact notifyPop_moves source
  case notifySlowCas => exact notifySlowCas_moves source
  case broadcastAdd => exact broadcastAdd_moves source
  case broadcastLoad => exact ⟨_, .goto source rfl rfl rfl rfl (.inl rfl)⟩
  case broadcastDrain => exact broadcastDrain_moves source
  case unlock => exact unlock_moves source
  case unlockStore => exact unlocked_moves source rfl rfl fun _ => rfl
  case signalTake => exact ⟨_, .takeWaker source rfl rfl rfl rfl (.inl rfl)⟩
  case signalPublish => exact signalPublish_moves waiting source
  case waitSwap => exact waitSwap_moves source
  case rearmRegister => exact rearmRegister_moves source
  case rearmLoad => exact rearmLoad_moves source
  case cancelRemove => exact cancelRemove_moves source

/-- **The beginning of every call is a move.** -/
theorem begin_moves {move : Move} (stepped : begin state party move = some next) :
    MovesFrom state next party (state.pc party) := by
  cases move <;> simp only [begin] at stepped
  case advance => cases stepped
  case poll | drop =>
    split at stepped <;> cases stepped
    rename_i source
    rw [source]
    first
      | exact poll_moves source
      | exact drop_moves source
  case create =>
    split at stepped <;> cases stepped
    rename_i source
    rw [source]
    exact ⟨.future, .write source rfl rfl rfl rfl rfl (.inl rfl)⟩
  all_goals
    split at stepped <;> cases stepped
    rename_i source
    rw [source]
    exact ⟨_, .goto source rfl rfl rfl rfl (.inl rfl)⟩

theorem step_moves {label : Label ι} (waiting : Waiting state)
    (stepped : step width state label = some next) :
    MovesFrom state next label.1 (state.pc label.1) := by
  unfold step at stepped
  split at stepped
  · exact advance_moves waiting stepped
  · exact begin_moves stepped

end Moves

/-- **The discipline holds in every reachable state**, under any condition on the steps. -/
theorem waiting_of_reachable {width : PointerWidth} {allowed : State ι → Label ι → State ι → Prop}
    {state : State ι} (reach : (machine ι width).ReachableBy allowed state) : Waiting state := by
  refine reach.invariant Waiting ?_ ?_
  · rintro _ rfl
    exact Kept.start rfl fun _ => ⟨rfl, rfl, rfl, rfl⟩
  · intro state label next _ waiting stepped _
    obtain ⟨pc', moves⟩ := step_moves waiting stepped
    exact waiting.step moves

end Xutex.Notify
