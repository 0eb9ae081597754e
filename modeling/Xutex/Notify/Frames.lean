/-
**What the steps of the notifier leave alone.**

`Frame`: a step writes the `aux` word and the captured generation of nobody but the party that
moves, and of that one only while its node is not given away. `Untouched`: most steps leave the word
and the queue as they are; `quietAt` lists the points they start from.
-/

import Xutex.Notify.Waiting

set_option linter.unusedSectionVars false

namespace Xutex.Notify

open Concurrency Discipline

variable {ι : Type} [DecidableEq ι]

/-! ### Stamps -/

/-- **The stamps of the nodes that are given away stay.** -/
structure Frame (state next : State ι) (party : ι) : Prop where
  captured : ∀ node, node ≠ party → next.captured node = state.captured node
  aux : ∀ node, node ≠ party → (next.signal node).aux = (state.signal node).aux
  own : ((next.signal party).aux = (state.signal party).aux ∧
      next.captured party = state.captured party) ∨
    waitsAt (state.pc party) (state.signal party).value = false

section Frame

variable {width : PointerWidth} {state before next : State ι} {party node : ι} {mode : Mode}

theorem Frame.given (frame : Frame state next party)
    (waits : waitsAt (state.pc node) (state.signal node).value = true) :
    (next.signal node).aux = (state.signal node).aux ∧
    next.captured node = state.captured node := by
  by_cases self : node = party
  · subst self
    exact frame.own.resolve_right (by simp [waits])
  · exact ⟨frame.aux node self, frame.captured node self⟩

theorem Frame.same (signal : next.signal = state.signal)
    (captured : next.captured = state.captured) : Frame state next party :=
  ⟨fun _ _ => by rw [captured], fun _ _ => by rw [signal], .inl ⟨by rw [signal], by rw [captured]⟩⟩

/-- One node is written and keeps its stamp. -/
theorem Frame.write {written : Signal}
    (signal : next.signal = Function.update state.signal node written)
    (aux : written.aux = (state.signal node).aux) (captured : next.captured = state.captured) :
    Frame state next party := by
  have same (other : ι) : (next.signal other).aux = (state.signal other).aux := by
    rw [signal]
    by_cases self : other = node
    · subst self
      rw [Function.update_self, aux]
    · rw [Function.update_of_ne self]
  exact ⟨fun _ _ => by rw [captured], fun other _ => same other, .inl ⟨same party,
    by rw [captured]⟩⟩

/-- A party whose node is not given away may do what it wants with it. -/
theorem Frame.free {written : Signal}
    (signal : next.signal = Function.update state.signal party written)
    (captured : ∀ other, other ≠ party → next.captured other = state.captured other)
    (waits : waitsAt (state.pc party) (state.signal party).value = false) :
    Frame state next party :=
  ⟨captured, fun other different => by rw [signal, Function.update_of_ne different], .inr waits⟩

theorem completed_frame (signal : before.signal = state.signal)
    (captured : before.captured = state.captured) :
    Frame state (completed before party mode) party := by
  cases mode with
  | wait => exact .same signal captured
  | poll waker =>
    have written : (completed before party (.poll waker)).signal =
        Function.update state.signal party ((state.signal party).setValue .returned) := by
      rw [← signal]
      rfl
    exact .write written rfl captured

theorem tryTrue_frame {attempt : Attempt} (signal : before.signal = state.signal)
    (captured : before.captured = state.captured) :
    Frame state (tryTrue before party attempt) party := by
  unfold tryTrue
  split <;> exact completed_frame signal captured

theorem tryNext_frame {attempt : Attempt} {cur : ℕ}
    (waits : waitsAt (state.pc party) (state.signal party).value = false) :
    Frame state (tryNext state party attempt cur) party := by
  unfold tryNext
  split
  · exact tryTrue_frame rfl rfl
  · split
    · exact .same rfl rfl
    · cases attempt with
      | wait => exact .free rfl (fun _ _ => rfl) waits
      | poll waker => exact .same rfl rfl
      | pollSlow waker => exact .free rfl (fun _ _ => rfl) waits

theorem signalNext_signal {all : Bool} {chain : List ι} :
    (signalNext state party all chain).signal = state.signal := by
  cases chain <;> rfl

theorem signalNext_captured {all : Bool} {chain : List ι} :
    (signalNext state party all chain).captured = state.captured := by
  cases chain <;> rfl

theorem unlocked_frame {back : Unlock ι} (signal : before.signal = state.signal)
    (captured : before.captured = state.captured) :
    Frame state (unlocked before party back) party := by
  cases back with
  | completed mode => exact completed_frame signal captured
  | enqueued mode => cases mode <;> exact .same signal captured
  | popped passed node => cases node <;> exact .same signal captured
  | drained chain =>
    exact .same (signalNext_signal.trans signal) (signalNext_captured.trans captured)
  | removed found => cases found <;> exact .same signal captured

theorem pollFinal_frame {waker : Waker} {value : SignalValue} :
    Frame state (pollFinal state party waker value) party := by
  unfold pollFinal
  split
  · exact .same rfl rfl
  · exact completed_frame rfl rfl

theorem passOn_frame {value : SignalValue} : Frame state (passOn state party value) party := by
  unfold passOn
  split <;> exact .same rfl rfl

theorem notifyNext_frame {passed : Bool} {cur : ℕ} :
    Frame state (notifyNext state party passed cur) party := by
  unfold notifyNext
  split
  · exact .same rfl rfl
  · split <;> exact .same rfl rfl

/-- A step of `WaitQueue::lock(false)`. -/
theorem lock_frame {pc pc' : Pc ι} {result : Option (State ι)} (stepped : result = some next)
    (found : result = match state.queue.lock party false with
      | .spin => none
      | .absent => some (state.goto party pc)
      | .acquired locked => some ({ state with queue := locked }.goto party pc')) :
    Frame state next party := by
  subst found
  split at stepped <;> cases stepped <;> exact .same rfl rfl

/-- **Every step inside a call keeps the stamps.** -/
theorem advance_frame (stepped : advance width state party = some next) :
    Frame state next party := by
  cases source : state.pc party <;>
    simp only [advance, source, Option.some.injEq, reduceCtorEq] at stepped
  case enqueueLock =>
    unfold enqueueLock at stepped
    split at stepped <;> cases stepped
    exact .same rfl rfl
  case notifyLock => exact lock_frame stepped rfl
  case broadcastLock => exact lock_frame stepped rfl
  case cancelLock => exact lock_frame stepped rfl
  case waitPark =>
    unfold waitPark at stepped
    dsimp only at stepped
    split at stepped <;> cases stepped
    exact completed_frame rfl rfl
  case cancelWait =>
    unfold cancelWait at stepped
    dsimp only at stepped
    split at stepped <;> cases stepped
    exact passOn_frame
  all_goals subst stepped
  case tryLoad => exact tryNext_frame (by rw [source]; rfl)
  case tryCas =>
    unfold tryCas
    split
    · exact tryTrue_frame rfl rfl
    · exact tryNext_frame (by rw [source]; rfl)
  case enqueueFlag => exact .same rfl rfl
  case enqueueCas =>
    unfold enqueueCas
    split <;> exact .same rfl rfl
  case enqueuePush => exact .free rfl (fun _ _ => rfl) (by rw [source]; rfl)
  case notifyLoad =>
    unfold notifyLoad
    split
    · exact .same rfl rfl
    · split <;> exact .same rfl rfl
  case notifyCas =>
    unfold notifyCas
    split <;> exact .same rfl rfl
  case notifySlow => exact notifyNext_frame
  case notifyPop =>
    unfold notifyPop
    split <;> exact .same rfl rfl
  case notifySlowCas =>
    unfold notifySlowCas
    split
    · exact .same rfl rfl
    · exact notifyNext_frame
  case broadcastAdd => exact .same rfl rfl
  case broadcastLoad => exact .same rfl rfl
  case broadcastDrain => exact .same rfl rfl
  case unlock =>
    unfold unlock
    split
    · exact .same rfl rfl
    · exact unlocked_frame rfl rfl
  case unlockStore => exact unlocked_frame rfl rfl
  case signalTake node rest all => exact .write rfl rfl rfl
  case signalPublish node rest all => exact .write signalNext_signal rfl signalNext_captured
  case waitSwap =>
    unfold waitSwap
    dsimp only
    split <;> exact .write rfl rfl rfl
  case rearmRegister =>
    unfold rearmRegister
    dsimp only
    split <;> exact .write rfl rfl rfl
  case rearmLoad =>
    unfold rearmLoad
    dsimp only
    split
    · exact pollFinal_frame
    · exact .same rfl rfl
  case cancelRemove =>
    unfold cancelRemove
    split <;> exact .same rfl rfl

/-- Only a wait that begins captures a generation. -/
theorem begin_frame {move : Move} (stepped : begin state party move = some next) :
    Frame state next party := by
  have captured (other : ι) (different : other ≠ party) :
      (capture state party).captured other = state.captured other :=
      Function.update_of_ne different _ _
  have idle (source : state.pc party = .idle) :
      waitsAt (state.pc party) (state.signal party).value = false := by rw [source]; rfl
  cases move <;> simp only [begin] at stepped
  case advance => cases stepped
  case wait =>
    split at stepped <;> cases stepped
    rename_i source
    exact ⟨captured, fun _ _ => rfl, .inr (idle source)⟩
  case create =>
    split at stepped <;> cases stepped
    rename_i source
    exact .free rfl captured (idle source)
  case poll =>
    split at stepped <;> cases stepped
    unfold poll
    dsimp only
    split
    · exact .same rfl rfl
    · split
      · exact .same rfl rfl
      · exact pollFinal_frame
  case drop =>
    split at stepped <;> cases stepped
    unfold drop
    split
    case h_4 => exact passOn_frame
    all_goals exact .same rfl rfl
  all_goals
    split at stepped <;> cases stepped
    exact .same rfl rfl

end Frame

/-! ### The word and the queue -/

/-- A broadcast that has advanced the generation and waits for the lock. -/
def broadcastsAt : Pc ι → Bool
  | .broadcastLock _ => true
  | _ => false

/-- The word and the queue are as they were, and the party has not started a broadcast. -/
structure Untouched (state next : State ι) (party : ι) : Prop where
  word : next.word = state.word
  queue : next.queue = state.queue
  broadcasts : next.broadcasts = state.broadcasts
  target : ∃ pc, next.pc = Function.update state.pc party pc ∧ broadcastsAt pc = false

section Untouched

variable {width : PointerWidth} {state next : State ι} {party : ι} {mode : Mode}

theorem completed_untouched : Untouched state (completed state party mode) party := by
  cases mode <;> exact ⟨rfl, rfl, rfl, _, rfl, rfl⟩

theorem tryTrue_untouched {attempt : Attempt} :
    Untouched state (tryTrue state party attempt) party := by
  unfold tryTrue
  split <;> exact completed_untouched

theorem tryNext_untouched {attempt : Attempt} {cur : ℕ} :
    Untouched state (tryNext state party attempt cur) party := by
  unfold tryNext
  split
  · exact tryTrue_untouched
  · split
    · exact ⟨rfl, rfl, rfl, _, rfl, rfl⟩
    · cases attempt <;> exact ⟨rfl, rfl, rfl, _, rfl, rfl⟩

theorem signalNext_untouched {all : Bool} {chain : List ι} :
    Untouched state (signalNext state party all chain) party := by
  cases chain <;> exact ⟨rfl, rfl, rfl, _, rfl, rfl⟩

theorem unlocked_untouched {back : Unlock ι} :
    Untouched state (unlocked state party back) party := by
  cases back with
  | completed mode => exact completed_untouched
  | enqueued mode => cases mode <;> exact ⟨rfl, rfl, rfl, _, rfl, rfl⟩
  | popped passed node => cases node <;> exact ⟨rfl, rfl, rfl, _, rfl, rfl⟩
  | drained chain => exact signalNext_untouched
  | removed found => cases found <;> exact ⟨rfl, rfl, rfl, _, rfl, rfl⟩

theorem notifyNext_untouched {passed : Bool} {cur : ℕ} :
    Untouched state (notifyNext state party passed cur) party := by
  unfold notifyNext
  split
  · exact ⟨rfl, rfl, rfl, _, rfl, rfl⟩
  · split <;> exact ⟨rfl, rfl, rfl, _, rfl, rfl⟩

theorem passOn_untouched {value : SignalValue} :
    Untouched state (passOn state party value) party := by
  unfold passOn
  split <;> exact ⟨rfl, rfl, rfl, _, rfl, rfl⟩

theorem completed_consume_untouched {used : Bool} :
    Untouched state (completed (state.consume used) party mode) party := by
  cases mode <;> exact ⟨rfl, rfl, rfl, _, rfl, rfl⟩

theorem pollFinal_untouched {waker : Waker} {value : SignalValue} :
    Untouched state (pollFinal state party waker value) party := by
  unfold pollFinal
  split
  · exact ⟨rfl, rfl, rfl, _, rfl, rfl⟩
  · exact completed_consume_untouched

/-- The points from which a step touches neither the word nor the queue. -/
def quietAt : Pc ι → Bool
  | .tryLoad _ | .notifyLoad _ | .notifySlow _ => true
  | .signalTake _ _ _ | .signalPublish _ _ _ => true
  | .waitSwap | .waitPark | .rearmRegister _ | .rearmLoad _ | .cancelWait => true
  | _ => false

theorem advance_untouched (quiet : quietAt (state.pc party) = true)
    (stepped : advance width state party = some next) : Untouched state next party := by
  cases source : state.pc party <;>
    simp only [quietAt, source, Bool.false_eq_true] at quiet <;>
    simp only [advance, source, Option.some.injEq] at stepped
  case waitPark =>
    unfold waitPark at stepped
    dsimp only at stepped
    split at stepped <;> cases stepped
    exact completed_consume_untouched
  case cancelWait =>
    unfold cancelWait at stepped
    dsimp only at stepped
    split at stepped <;> cases stepped
    exact passOn_untouched
  all_goals subst stepped
  case tryLoad => exact tryNext_untouched
  case notifyLoad =>
    unfold notifyLoad
    split
    · exact ⟨rfl, rfl, rfl, _, rfl, rfl⟩
    · split <;> exact ⟨rfl, rfl, rfl, _, rfl, rfl⟩
  case notifySlow => exact notifyNext_untouched
  case signalTake => exact ⟨rfl, rfl, rfl, _, rfl, rfl⟩
  case signalPublish =>
    exact ⟨signalNext_untouched.word, signalNext_untouched.queue, signalNext_untouched.broadcasts,
      signalNext_untouched.target⟩
  case waitSwap =>
    unfold waitSwap
    dsimp only
    split <;> exact ⟨rfl, rfl, rfl, _, rfl, rfl⟩
  case rearmRegister =>
    unfold rearmRegister
    dsimp only
    split <;> exact ⟨rfl, rfl, rfl, _, rfl, rfl⟩
  case rearmLoad =>
    unfold rearmLoad
    dsimp only
    split
    · exact pollFinal_untouched
    · exact ⟨rfl, rfl, rfl, _, rfl, rfl⟩

theorem begin_untouched {move : Move} (stepped : begin state party move = some next) :
    Untouched state next party := by
  cases move <;> simp only [begin] at stepped
  case advance => cases stepped
  case poll =>
    split at stepped <;> cases stepped
    unfold poll
    dsimp only
    split
    · exact ⟨rfl, rfl, rfl, _, rfl, rfl⟩
    · split
      · exact ⟨rfl, rfl, rfl, _, rfl, rfl⟩
      · exact pollFinal_untouched
  case drop =>
    split at stepped <;> cases stepped
    unfold drop
    split
    case h_4 => exact passOn_untouched
    all_goals exact ⟨rfl, rfl, rfl, _, rfl, rfl⟩
  all_goals
    split at stepped <;> cases stepped
    exact ⟨rfl, rfl, rfl, _, rfl, rfl⟩

end Untouched

end Xutex.Notify
