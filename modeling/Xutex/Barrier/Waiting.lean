/-
**The barrier keeps the discipline of its wait queue.**

`discipline` declares the program points of the barrier to the general rules of `Waiters`, and
`step_moves` shows that every step is one of the moves they allow. This gives
`waiting_of_reachable`: on every run, whatever the interleaving, each parked node is in the queue or
in exactly one leader's chain, and the tag-lock has one holder.
-/

import Xutex.Barrier.Model
import Xutex.Core.Waiters

set_option linter.unusedSectionVars false

namespace Xutex.Barrier

open Concurrency Discipline

variable {ι : Type} [DecidableEq ι]

/-! ### The declared program points -/

/-- A future that leads is complete before it releases the others. -/
def leaderValue : Mode → Option SignalValue
  | .wait => none
  | .poll _ => some .returned

def chainOf : Pc ι → List ι
  | .releaseUnlock _ chain => chain
  | .releaseTake _ node rest | .releasePublish _ node rest => node :: rest
  | _ => []

def waitsAt : Pc ι → SignalValue → Bool
  | .future, value | .rearmRegister _, value | .rearmLoad _, value => valueWaits value
  | .enqueueUnlock mode enqueued, value => enqueued && modeWaits mode value
  | .waitSwap, _ | .waitPark, _ | .withdrawLoad, _ | .withdrawCas _, _ => true
  | .removeLock, _ | .removeNode, _ | .dropSpin, _ => true
  | .removeUnlock found, _ => !found
  | _, _ => false

def lockedAt : Pc ι → Bool
  | .releaseDrain _ _ | .releaseUnlock _ _ => true
  | .enqueueFresh _ _ | .enqueuePush _ _ | .enqueueUnlock _ _ => true
  | .removeNode | .removeUnlock _ => true
  | _ => false

def ownValue : Pc ι → Option SignalValue
  | .enqueueLock mode _ | .enqueueFresh mode _ | .enqueuePush mode _ => some (armedValue mode)
  | .releaseLock mode _ | .releaseDrain mode _ | .releaseUnlock mode _ => leaderValue mode
  | .releaseTake mode _ _ | .releasePublish mode _ _ => leaderValue mode
  | _ => none

/-- **The barrier's program points**, as far as waiting is concerned. A leader signals with
`SIGNAL_ALL` only. -/
def discipline : Discipline ι (Pc ι) where
  chain := chainOf
  waits := waitsAt
  locked := lockedAt
  own := ownValue
  signals signal := decide (signal = .all)
  signalsFinal {signal} kind := by
    rw [of_decide_eq_true kind]
    rfl
  signalledWaits {pc value signal} waits kind := by
    obtain rfl := of_decide_eq_true kind
    unfold waitsAt at waits ⊢
    split at waits <;> simp_all [valueWaits]
    rename Mode => mode
    cases mode <;> rfl
  signalerFree {pc} value busy := by
    cases pc <;> simp_all [chainOf, waitsAt]
  ownFree {pc value} other own := by
    cases pc <;> simp_all [ownValue, waitsAt]

/-- The part of the state that waiting is about. -/
def State.waiters (state : State ι) : Waiters ι (Pc ι) := ⟨state.queue, state.signal, state.pc⟩

/-- The invariant of waiting, for the barrier. -/
abbrev Waiting (state : State ι) : Prop := discipline.Kept state.waiters

/-! ### Every step is a move -/

section Moves

variable {half n : ℕ} {state next : State ι} {party : ι} {mode : Mode}

/-- The step is a move of `party` from `pc`. -/
abbrev MovesFrom (state next : State ι) (party : ι) (pc : Pc ι) : Prop :=
  ∃ pc', discipline.Moves state.waiters next.waiters party pc pc'

theorem arriveCas_moves {cur : ℕ} (source : state.pc party = .arriveCas mode cur) :
    MovesFrom state (arriveCas half n state party mode cur) party (.arriveCas mode cur) := by
  unfold arriveCas
  split
  · dsimp only
    split
    · refine ⟨.releaseLock mode (generation half cur), ?_⟩
      cases mode with
      | wait => exact .goto source rfl rfl rfl rfl (.inl rfl)
      | poll waker => exact .write source rfl rfl rfl rfl rfl (.inr rfl)
    · refine ⟨.enqueueLock mode (generation half cur), ?_⟩
      cases mode with
      | wait => exact .write source rfl rfl rfl rfl rfl (.inr rfl)
      | poll waker => exact .write source rfl rfl rfl rfl rfl (.inr rfl)
  · exact ⟨_, .goto source rfl rfl rfl rfl (.inl rfl)⟩

section

variable (waiting : Waiting state)
include waiting

/-- A leader that returns has nothing left to signal, and a future's node is complete. -/
theorem resume_free {pc : Pc ι} (source : state.pc party = pc)
    (complete : ownValue pc = leaderValue mode) :
    chainOf (State.resume mode : Pc ι) = [] ∧ lockedAt (State.resume mode : Pc ι) = false ∧
      waitsAt (State.resume mode : Pc ι) (state.signal party).value = false ∧
      ownValue (State.resume mode : Pc ι) = none := by
  cases mode with
  | wait => exact ⟨rfl, rfl, rfl, rfl⟩
  | poll waker =>
    have value : (state.signal party).value = .returned :=
      waiting.owned party .returned ((congrArg ownValue source).trans complete)
    exact ⟨rfl, rfl, by rw [value]; rfl, rfl⟩

theorem releaseLock_moves {expected : ℕ} (source : state.pc party = .releaseLock mode expected)
    (stepped : releaseLock state party mode expected = some next) :
    MovesFrom state next party (.releaseLock mode expected) := by
  unfold releaseLock at stepped
  split at stepped <;> cases stepped
  · obtain ⟨chain, locked, waits, own⟩ := resume_free waiting source rfl
    exact ⟨_, .goto source rfl chain locked waits (.inl own)⟩
  · rename_i held result
    exact ⟨_, .lock source result rfl rfl rfl rfl (.inr rfl)⟩

theorem releaseUnlock_moves {chain : List ι} (source : state.pc party = .releaseUnlock mode chain) :
    MovesFrom state (releaseNext { state with queue := state.queue.unlock } party mode chain) party
      (.releaseUnlock mode chain) := by
  cases chain with
  | nil =>
    obtain ⟨chain, locked, waits, own⟩ := resume_free waiting source rfl
    exact ⟨_, .unlock source rfl chain rfl locked waits (.inl own)⟩
  | cons node rest => exact ⟨_, .unlock source rfl rfl rfl rfl rfl (.inr rfl)⟩

theorem releasePublish_moves {node : ι} {rest : List ι}
    (source : state.pc party = .releasePublish mode node rest) :
    MovesFrom state (releasePublish state party mode node rest) party
      (.releasePublish mode node rest) := by
  unfold releasePublish
  cases rest with
  | nil =>
    obtain ⟨chain, locked, waits, own⟩ := resume_free waiting source rfl
    exact ⟨_, .publish waiting source rfl rfl (congrArg (node :: ·) chain.symm) locked waits
      (.inl own)⟩
  | cons first others => exact ⟨_, .publish waiting source rfl rfl rfl rfl rfl (.inr rfl)⟩

theorem enqueuePush_moves {expected : ℕ} (source : state.pc party = .enqueuePush mode expected) :
    MovesFrom state (enqueuePush state party mode expected) party (.enqueuePush mode expected) := by
  have value : (state.signal party).value = armedValue mode :=
    waiting.owned party _ (congrArg ownValue source)
  refine ⟨.enqueueUnlock mode true, .push source rfl rfl rfl rfl ?_ ?_ rfl⟩
  · show (true && modeWaits mode (state.signal party).value) = true
    rw [value, Bool.true_and, modeWaits_armedValue]
  · show (state.signal party).value.isFinal = false
    rw [value, armedValue_unsignalled]

end

theorem enqueueUnlock_moves {enqueued : Bool}
    (source : state.pc party = .enqueueUnlock mode enqueued) :
    MovesFrom state (enqueueUnlock state party mode enqueued) party
      (.enqueueUnlock mode enqueued) := by
  cases mode <;> cases enqueued
  · exact ⟨_, .unlock source rfl rfl rfl rfl rfl (.inl rfl)⟩
  · exact ⟨_, .unlock source rfl rfl rfl rfl rfl (.inl rfl)⟩
  · exact ⟨_, .unlockWrite source rfl rfl rfl rfl rfl rfl (.inl rfl)⟩
  · exact ⟨_, .unlock source rfl rfl rfl rfl rfl (.inl rfl)⟩

theorem reachesAll_isFinal {value : SignalValue} (reaches : value.reachesAll = true) :
    value.isFinal = true := by
  cases value <;> simp_all [SignalValue.reachesAll, SignalValue.isFinal]

theorem waitSwap_moves (waiting : Waiting state) (source : state.pc party = .waitSwap) :
    MovesFrom state (waitSwap state party) party .waitSwap := by
  unfold waitSwap
  dsimp only
  split
  · rename_i reaches
    exact ⟨_, .consumeWrite source rfl rfl rfl rfl (reachesAll_isFinal reaches) rfl (.inl rfl)⟩
  · rename_i below
    refine ⟨_, .touch source rfl rfl rfl rfl (Or.inr ⟨?_, rfl⟩) rfl⟩
    refine Bool.eq_false_iff.mpr fun final => below ?_
    have signals := waiting.signalled party (congrArg (waitsAt · _) source) final
    rw [show (state.signal party).value = .all from of_decide_eq_true signals]
    rfl

/-- The end of a poll, from a point where the wait is read off the value. -/
theorem pollValue_moves {waker : Waker} {pc : Pc ι} (source : state.pc party = pc)
    (chain : chainOf pc = []) (locked : lockedAt pc = false)
    (waits : ∀ value, waitsAt pc value = valueWaits value)
    (different : (state.signal party).value ≠ .initWaiting) :
    MovesFrom state (pollValue state party waker (state.signal party).value) party pc := by
  have final : valueWaits (state.signal party).value = true →
      (state.signal party).value.isFinal = true :=
    fun waited => isFinal_of_valueWaits waited different
  unfold pollValue
  by_cases waited : valueWaits (state.signal party).value = true
  · split
    · split
      · rename_i same
        rw [same] at waited
        cases waited
      · exact ⟨_, .consumeWrite source rfl chain.symm locked.symm ((waits _).trans waited)
          (final waited) rfl (.inl rfl)⟩
    · exact ⟨_, .consume source rfl chain.symm locked.symm ((waits _).trans waited)
        (final waited) rfl rfl⟩
  · have free := (waits _).trans (Bool.eq_false_iff.mpr waited)
    split
    · split
      · exact ⟨_, .goto source rfl chain.symm locked.symm (waits _).symm (.inl rfl)⟩
      · exact ⟨_, .write source rfl chain.symm locked.symm free rfl (.inl rfl)⟩
    · exact ⟨_, .goto source rfl chain.symm locked.symm free.symm (.inl rfl)⟩

theorem rearmRegister_moves {waker : Waker} (source : state.pc party = .rearmRegister waker) :
    MovesFrom state (rearmRegister state party waker) party (.rearmRegister waker) := by
  unfold rearmRegister
  dsimp only
  split
  · exact ⟨_, .touch source rfl rfl rfl rfl (.inl rfl) rfl⟩
  · exact ⟨_, .touch source rfl rfl rfl rfl (.inl rfl) rfl⟩

theorem rearmLoad_moves {waker : Waker} (source : state.pc party = .rearmLoad waker) :
    MovesFrom state (rearmLoad state party waker) party (.rearmLoad waker) := by
  unfold rearmLoad
  dsimp only
  split
  · rename_i final
    refine pollValue_moves source rfl rfl (fun _ => rfl) fun waiting => ?_
    rw [waiting] at final
    cases final
  · exact ⟨_, .goto source rfl rfl rfl rfl (.inl rfl)⟩

theorem withdrawTry_moves {cur : ℕ} {pc : Pc ι} (source : state.pc party = pc)
    (chain : chainOf pc = []) (locked : lockedAt pc = false)
    (waits : ∀ value, waitsAt pc value = true) :
    MovesFrom state (withdrawTry half state party cur) party pc := by
  unfold withdrawTry
  split
  · exact ⟨_, .goto source rfl chain.symm locked.symm (waits _).symm (.inl rfl)⟩
  · exact ⟨_, .goto source rfl chain.symm locked.symm (waits _).symm (.inl rfl)⟩

theorem removeNode_moves (source : state.pc party = .removeNode) :
    MovesFrom state (removeNode state party) party .removeNode := by
  unfold removeNode
  by_cases member : party ∈ state.queue.entries
  · refine ⟨.removeUnlock true, .remove source member ?_ rfl rfl rfl rfl⟩
    simp [State.waiters, member]
  · refine ⟨.removeUnlock false, .goto source ?_ rfl rfl rfl (.inl rfl)⟩
    simp [State.waiters, member, WaitQueue.remove, List.erase_of_not_mem member]

theorem removeUnlock_moves {found : Bool} (source : state.pc party = .removeUnlock found) :
    MovesFrom state (removeUnlock state party found) party (.removeUnlock found) := by
  cases found <;> exact ⟨_, .unlock source rfl rfl rfl rfl rfl (.inl rfl)⟩

/-- **Every step inside a call is a move.** -/
theorem advance_moves (waiting : Waiting state) (stepped : advance half n state party = some next) :
    MovesFrom state next party (state.pc party) := by
  cases source : state.pc party <;> simp only [advance, source] at stepped
  case idle | future => cases stepped
  case arriveLoad => cases stepped; exact ⟨_, .goto source rfl rfl rfl rfl (.inl rfl)⟩
  case arriveCas => cases stepped; exact arriveCas_moves source
  case releaseLock => exact releaseLock_moves waiting source stepped
  case releaseDrain =>
    cases stepped
    exact ⟨_, .pop source rfl (List.takeWhile_append_dropWhile).symm (fun _ => rfl) rfl rfl rfl
      (.inr rfl)⟩
  case releaseUnlock => cases stepped; exact releaseUnlock_moves waiting source
  case releaseTake => cases stepped; exact ⟨_, .takeWaker source rfl rfl rfl rfl (.inr rfl)⟩
  case releasePublish => cases stepped; exact releasePublish_moves waiting source
  case enqueueLock =>
    unfold enqueueLock at stepped
    split at stepped <;> cases stepped
    rename_i held result
    exact ⟨_, .lock source result rfl rfl rfl rfl (.inr rfl)⟩
  case enqueueFresh =>
    cases stepped
    unfold enqueueFresh
    split
    · exact ⟨_, .goto source rfl rfl rfl rfl (.inl rfl)⟩
    · exact ⟨_, .goto source rfl rfl rfl rfl (.inr rfl)⟩
  case enqueuePush => cases stepped; exact enqueuePush_moves waiting source
  case enqueueUnlock => cases stepped; exact enqueueUnlock_moves source
  case waitSwap => cases stepped; exact waitSwap_moves waiting source
  case waitPark =>
    unfold waitPark at stepped
    split at stepped <;> cases stepped
    rename_i reaches
    exact ⟨_, .consume source rfl rfl rfl rfl (reachesAll_isFinal reaches) rfl rfl⟩
  case rearmRegister => cases stepped; exact rearmRegister_moves source
  case rearmLoad => cases stepped; exact rearmLoad_moves source
  case withdrawLoad => cases stepped; exact withdrawTry_moves source rfl rfl fun _ => rfl
  case withdrawCas =>
    cases stepped
    unfold withdrawCas
    split
    · exact ⟨_, .goto source rfl rfl rfl rfl (.inl rfl)⟩
    · exact withdrawTry_moves source rfl rfl fun _ => rfl
  case removeLock =>
    unfold removeLock at stepped
    split at stepped <;> cases stepped
    · exact ⟨_, .goto source rfl rfl rfl rfl (.inl rfl)⟩
    · rename_i held result
      exact ⟨_, .lock source result rfl rfl rfl rfl (.inl rfl)⟩
  case removeNode => cases stepped; exact removeNode_moves source
  case removeUnlock => cases stepped; exact removeUnlock_moves source
  case dropSpin =>
    unfold dropSpin at stepped
    split at stepped <;> cases stepped
    rename_i reaches
    exact ⟨_, .consume source rfl rfl rfl rfl (reachesAll_isFinal reaches) rfl rfl⟩

theorem drop_moves (source : state.pc party = .future) :
    MovesFrom state (drop state party) party .future := by
  unfold drop
  split
  · rename_i waiting
    refine ⟨_, .goto source rfl rfl rfl ?_ (.inl rfl)⟩
    show true = valueWaits (state.signal party).value
    rw [waiting]
    rfl
  · rename_i different
    by_cases waited : valueWaits (state.signal party).value = true
    · exact ⟨_, .consume source rfl rfl rfl waited (isFinal_of_valueWaits waited different) rfl
        rfl⟩
    · exact ⟨_, .goto source rfl rfl rfl (Bool.eq_false_iff.mpr waited).symm (.inl rfl)⟩

/-- **The start of a call is a move.** -/
theorem begin_moves {move : Move} (stepped : begin state party move = some next) :
    MovesFrom state next party (state.pc party) := by
  cases move <;> simp only [begin] at stepped
  case advance => cases stepped
  all_goals
    split at stepped <;> cases stepped
    rename_i source
    rw [source]
  case wait => exact ⟨_, .goto source rfl rfl rfl rfl (.inl rfl)⟩
  case create => exact ⟨_, .write source rfl rfl rfl rfl rfl (.inl rfl)⟩
  case poll waker =>
    unfold poll
    split
    · exact ⟨_, .goto source rfl rfl rfl rfl (.inl rfl)⟩
    · rename_i different
      exact pollValue_moves source rfl rfl (fun _ => rfl) different
  case drop => exact drop_moves source

/-- **Every step of the barrier is a move.** -/
theorem step_moves {label : Label ι} (waiting : Waiting state)
    (stepped : step half n state label = some next) :
    MovesFrom state next label.1 (state.pc label.1) := by
  unfold step at stepped
  split at stepped
  · exact advance_moves waiting stepped
  · exact begin_moves stepped

end Moves

/-- **The barrier keeps the discipline of its queue on every run.** -/
theorem waiting_of_reachable {half n : ℕ} {allowed : State ι → Label ι → State ι → Prop}
    {state : State ι} (reach : (machine ι half n).ReachableBy allowed state) : Waiting state := by
  refine reach.invariant _ ?_ ?_
  · rintro _ ⟨-, rfl⟩
    exact .start rfl fun _ => ⟨rfl, rfl, rfl, rfl⟩
  · intro state label next _ waiting stepped _
    obtain ⟨pc', moves⟩ := step_moves waiting stepped
    exact waiting.step moves

end Xutex.Barrier
