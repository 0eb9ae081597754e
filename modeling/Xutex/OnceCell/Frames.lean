/-
**What the steps of the once-cell leave alone.**

Most steps of a call work on the queue, on a node or on nothing shared at all. `Frame` says that the
word, the slot and the fields of the futures are as before, and `advance_frame` that they are after
every step from a `quietAt` point; the other points are the accesses to the word and the slot that
change them.
-/

import Xutex.OnceCell.Model

set_option linter.unusedSectionVars false

namespace Xutex.OnceCell

variable {ι V : Type} [DecidableEq ι]

/-- The word, the slot, the fields of the futures and the history of both are as before. -/
structure Frame (state next : State ι V) : Prop where
  phase : next.phase = state.phase
  slot : next.slot = state.slot
  fallible : next.fallible = state.fallible
  closure : next.closure = state.closure
  fut : next.fut = state.fut
  initializing : next.initializing = state.initializing
  written : next.written = state.written
  returned : next.returned = state.returned
  started : next.started = state.started
  leaked : next.leaked = state.leaked

/-- The points from which a step changes nothing of it. -/
def quietAt : Pc ι V → Bool
  | .syncBegin | .setBegin _ | .beginInit _ => false
  | .writeSlot _ _ | .completeSwap _ | .abortSwap _ | .valueRef _ => false
  | _ => true

section Frame

variable {state next : State ι V} {party : ι}

theorem finish_frame {after : After} : Frame state (finish state party after) := by
  cases after <;> exact ⟨rfl, rfl, rfl, rfl, rfl, rfl, rfl, rfl, rfl, rfl⟩

theorem signalNext_frame {retry : Bool} {after : After} {chain : List ι} :
    Frame state (signalNext state party retry after chain) := by
  cases chain with
  | nil => exact finish_frame
  | cons node rest => exact ⟨rfl, rfl, rfl, rfl, rfl, rfl, rfl, rfl, rfl, rfl⟩

/-- Work on the queue and on nodes before a part that is framed. -/
theorem Frame.after {queue : WaitQueue ι} {signal : ι → Signal}
    (frame : Frame { state with queue := queue, signal := signal } next) : Frame state next :=
  ⟨frame.phase, frame.slot, frame.fallible, frame.closure, frame.fut, frame.initializing,
    frame.written, frame.returned, frame.started, frame.leaked⟩

theorem unlocked_frame {back : Unlock ι} : Frame state (unlocked state party back) := by
  unfold unlocked
  split
  · exact signalNext_frame
  · exact finish_frame
  all_goals exact ⟨rfl, rfl, rfl, rfl, rfl, rfl, rfl, rfl, rfl, rfl⟩

/-- **Every step from a quiet point leaves the word, the slot and the futures alone.** -/
theorem advance_frame (quiet : quietAt (state.pc party) = true)
    (stepped : advance state party = some next) : Frame state next := by
  cases source : state.pc party <;> rw [source] at quiet <;>
    simp only [advance, source, Option.some.injEq, reduceCtorEq] at stepped
  case syncBegin | setBegin | beginInit | writeSlot | completeSwap | abortSwap | valueRef =>
    cases quiet
  case completeLock after =>
    unfold completeLock at stepped
    split at stepped <;> cases stepped
    · exact finish_frame
    · exact ⟨rfl, rfl, rfl, rfl, rfl, rfl, rfl, rfl, rfl, rfl⟩
  case retryLock after =>
    unfold retryLock at stepped
    split at stepped <;> cases stepped
    · exact finish_frame
    · exact ⟨rfl, rfl, rfl, rfl, rfl, rfl, rfl, rfl, rfl, rfl⟩
  case enqueueLock mode =>
    unfold enqueueLock at stepped
    split at stepped <;> cases stepped
    exact ⟨rfl, rfl, rfl, rfl, rfl, rfl, rfl, rfl, rfl, rfl⟩
  case cancelLock =>
    unfold cancelLock at stepped
    split at stepped <;> cases stepped <;> exact ⟨rfl, rfl, rfl, rfl, rfl, rfl, rfl, rfl, rfl, rfl⟩
  case syncPark =>
    unfold syncPark at stepped
    dsimp only at stepped
    split at stepped <;> cases stepped
    exact ⟨rfl, rfl, rfl, rfl, rfl, rfl, rfl, rfl, rfl, rfl⟩
  case cancelWait =>
    unfold cancelWait at stepped
    dsimp only at stepped
    split at stepped <;> cases stepped
    split <;> exact ⟨rfl, rfl, rfl, rfl, rfl, rfl, rfl, rfl, rfl, rfl⟩
  all_goals subst stepped
  case signalPublish node rest retry after => exact signalNext_frame.after
  case unlock back => exact unlocked_frame.after
  case getLoad =>
    unfold getLoad
    split <;> exact ⟨rfl, rfl, rfl, rfl, rfl, rfl, rfl, rfl, rfl, rfl⟩
  case initGet =>
    unfold initGet
    split <;> exact ⟨rfl, rfl, rfl, rfl, rfl, rfl, rfl, rfl, rfl, rfl⟩
  case syncLoad =>
    unfold syncLoad
    split <;> exact ⟨rfl, rfl, rfl, rfl, rfl, rfl, rfl, rfl, rfl, rfl⟩
  case retryPop after =>
    unfold retryPop
    split <;> exact ⟨rfl, rfl, rfl, rfl, rfl, rfl, rfl, rfl, rfl, rfl⟩
  case enqueueCheck mode =>
    unfold enqueueCheck
    split <;> exact ⟨rfl, rfl, rfl, rfl, rfl, rfl, rfl, rfl, rfl, rfl⟩
  case syncSwap =>
    unfold syncSwap
    dsimp only
    split <;> exact ⟨rfl, rfl, rfl, rfl, rfl, rfl, rfl, rfl, rfl, rfl⟩
  case waitLoad waker =>
    unfold waitLoad
    split <;> exact ⟨rfl, rfl, rfl, rfl, rfl, rfl, rfl, rfl, rfl, rfl⟩
  case stateLoad waker =>
    unfold stateLoad
    split <;> exact ⟨rfl, rfl, rfl, rfl, rfl, rfl, rfl, rfl, rfl, rfl⟩
  case rearmRegister waker =>
    unfold rearmRegister
    dsimp only
    split <;> exact ⟨rfl, rfl, rfl, rfl, rfl, rfl, rfl, rfl, rfl, rfl⟩
  case rearmLoad waker =>
    unfold rearmLoad
    split <;> exact ⟨rfl, rfl, rfl, rfl, rfl, rfl, rfl, rfl, rfl, rfl⟩
  case cancelRemove =>
    unfold cancelRemove
    split <;> exact ⟨rfl, rfl, rfl, rfl, rfl, rfl, rfl, rfl, rfl, rfl⟩
  all_goals exact ⟨rfl, rfl, rfl, rfl, rfl, rfl, rfl, rfl, rfl, rfl⟩

end Frame

end Xutex.OnceCell
