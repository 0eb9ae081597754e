/-
**Re-polling a queued entry while its signal is in flight.**

A signaler that popped an async entry runs `signal_node`: take the waker slot, publish the value,
wake the waker it took. A poll of the entry loads the value; while it is `SIGNAL_INIT_WAITING` the
poll goes through `rearm`: register its waker, and if the slot was empty load the value once more,
return it if it is final and wake its own task otherwise.

* `machine` — one entry, one signaler and any number of polls, each with a waker of its own, in any
  interleaving of these steps. `woken` remembers which wakers were woken since the latest poll
  began.
* `repoll_woken` — **no re-poll loses its wakeup** in the runs in which every poll that registers
  after the signaler's `take` finds the slot empty or brings the waker that was taken.
* `repoll_lost` — **without that condition one is lost.** `WasEmpty` marks the signal in flight for
  the first poll that registers after the `take` only: that poll leaves its own waker in the slot,
  so the next one is told `Armed` by a slot the signaler will not look at again.
-/

import Xutex.Concurrency.Runs
import Xutex.Core.Signal

namespace Xutex.Rearm

open Concurrency

/-! ### The entry, its signaler and its polls -/

/-- Where the signaler is in `signal_node`; from the `take` on it knows what it took. -/
inductive SignalerPc
  | take
  | publish (taken : WakerSlot)
  | wake (taken : WakerSlot)
  | done (taken : WakerSlot)
  deriving DecidableEq, Repr

/-- Where the latest poll is: in `rearm`, or returned. -/
inductive PollPc
  | register (waker : Waker)
  | load (waker : Waker)
  | wakeByRef (waker : Waker)
  | pending
  | ready
  deriving DecidableEq, Repr

/-- The entry, the two program counters, the waker passed to the latest poll and the wakers woken
since that poll began. -/
structure State where
  entry : Signal
  signaler : SignalerPc
  poll : PollPc
  latest : Waker
  woken : List Waker
  deriving DecidableEq, Repr

/-- A new poll with a waker, the next step of the latest poll, the next step of the signaler. -/
inductive Label
  | poll (waker : Waker)
  | advance
  | signal
  deriving DecidableEq, Repr

/-- The wakers a taken slot wakes; a parked thread is not a task. -/
def wakes : WakerSlot → List Waker
  | .none => []
  | .sync => []
  | .async waker => [waker]

/-- `signal_node(entry, value)`. -/
def signalNode (value : SignalValue) (state : State) : Option State :=
  match state.signaler with
  | .take => some { state with entry := state.entry.take, signaler := .publish state.entry.waker }
  | .publish taken =>
    some { state with entry := state.entry.setValue value, signaler := .wake taken }
  | .wake taken => some { state with woken := wakes taken ++ state.woken, signaler := .done taken }
  | .done _ => none

/-- `rearm(entry, cx)`. -/
def rearm (state : State) : Option State :=
  match state.poll with
  | .register waker =>
    let next := { state with entry := state.entry.register waker }
    match state.entry.registered waker with
    | .armed => some { next with poll := .pending }
    | .wasEmpty => some { next with poll := .load waker }
  | .load waker =>
    if state.entry.value.isFinal then some { state with poll := .ready }
    else some { state with poll := .wakeByRef waker }
  | .wakeByRef waker => some { state with poll := .pending, woken := waker :: state.woken }
  | .pending => none
  | .ready => none

/-- The start of a poll of a pending future: load the value, and go into `rearm` only while it is
`SIGNAL_INIT_WAITING`. -/
def pollEntry (state : State) (waker : Waker) : Option State :=
  match state.poll with
  | .pending =>
    if state.entry.value = .initWaiting then
      some { state with poll := .register waker, latest := waker, woken := [] }
    else some { state with poll := .ready, latest := waker, woken := [] }
  | _ => none

/-- The step of a label. -/
def step (value : SignalValue) (state : State) : Label → Option State
  | .poll waker => pollEntry state waker
  | .advance => rearm state
  | .signal => signalNode value state

/-- An entry that was queued by a poll with waker `first`, just popped by the signaler. -/
def start (first : Waker) : State where
  entry := ⟨.initWaiting, .async first, 0⟩
  signaler := .take
  poll := .pending
  latest := first
  woken := []

/-- The entry signalled with `value`. -/
def machine (value : SignalValue) : System State Label where
  init state := ∃ first, state = start first
  step := step value

/-! ### The condition and the property -/

/-- What the signaler has taken, once it has. -/
def SignalerPc.taken : SignalerPc → Option WakerSlot
  | .take => none
  | .publish taken | .wake taken | .done taken => some taken

/-- The signaler has returned from `signal_node`. -/
def SignalerPc.finished : SignalerPc → Bool
  | .take | .publish _ | .wake _ => false
  | .done _ => true

/-- A poll that registers after the `take` finds the slot empty, or brings the taken waker. -/
def firstInWindow (state : State) (label : Label) : Bool :=
  match label, state.poll, state.signaler.taken with
  | .advance, .register waker, some taken => state.entry.waker = .none || taken = .async waker
  | _, _, _ => true

/-- Once the signaler has finished, a latest poll that returned `Pending` has been woken since it
began. -/
def Woken (state : State) : Prop :=
  state.signaler.finished = true → state.poll = .pending → state.latest ∈ state.woken

instance (state : State) : Decidable (Woken state) :=
  inferInstanceAs (Decidable (_ → _ → _))

/-- The runs in which every poll meets the condition. -/
abbrev RunsInWindow (value : SignalValue) : State → Prop :=
  (machine value).ReachableBy fun state label _ => firstInWindow state label = true

/-! ### The invariant -/

/-- What the entry, the signaler and the latest poll know of each other. -/
structure Invariant (state : State) : Prop where
  /-- The value is the one of a queued entry until it is published, and final from then on. -/
  unpublished : ∀ taken, state.signaler = .take ∨ state.signaler = .publish taken →
    state.entry.value = .initWaiting
  published : ∀ taken, state.signaler = .wake taken ∨ state.signaler = .done taken →
    state.entry.value.isFinal = true
  /-- Until the `take` the slot holds a waker: the latest poll's, once that poll has returned. -/
  armed : state.signaler = .take → ∃ waker, state.entry.waker = .async waker
  current : state.signaler = .take → state.poll = .pending → state.entry.waker = .async state.latest
  /-- Only a `take` empties the slot. -/
  inWindow : state.signaler = .take → ∀ waker, state.poll ≠ .load waker ∧
    state.poll ≠ .wakeByRef waker
  /-- What was taken is a task's waker. -/
  tookAsync : ∀ taken, state.signaler.taken = some taken → ∃ waker, taken = .async waker
  /-- A poll in `rearm` is the latest one. -/
  polling : ∀ waker, state.poll = .register waker ∨ state.poll = .load waker ∨
    state.poll = .wakeByRef waker → state.latest = waker
  /-- A poll that is still in `rearm` began before the value was published, so before the wake. -/
  began : ∀ taken waker, state.signaler = .done taken → state.poll = .register waker →
    ∀ wakened ∈ wakes taken, wakened ∈ state.woken
  /-- After the `take` a returned poll was woken, or the signaler is about to wake it. -/
  covered : ∀ taken, state.signaler.taken = some taken → state.poll = .pending →
    state.latest ∈ state.woken ∨ (taken = .async state.latest ∧ state.signaler ≠ .done taken)

theorem invariant_start (first : Waker) : Invariant (start first) where
  unpublished _ _ := rfl
  published taken finished := by rcases finished with finished | finished <;> cases finished
  armed _ := ⟨first, rfl⟩
  current _ _ := rfl
  inWindow _ waker := ⟨by simp [start], by simp [start]⟩
  tookAsync taken took := by cases took
  polling waker inside := by rcases inside with inside | inside | inside <;> cases inside
  began taken waker finished := by cases finished
  covered taken took := by cases took

/-- The three steps of `signal_node`: the `take` opens the window, the last step delivers the
wake. -/
theorem invariant_signalNode {value : SignalValue} (final : value.isFinal = true)
    {state next : State}
    (inv : Invariant state) (stepped : signalNode value state = some next) : Invariant next := by
  unfold signalNode at stepped
  split at stepped
  case h_1 atTake =>
    cases stepped
    exact {
      unpublished := fun _ _ => inv.unpublished .none (Or.inl atTake)
      published := by simp
      armed := by simp
      current := by simp
      inWindow := by simp
      tookAsync := fun taken took => by
        cases took
        exact inv.armed atTake
      polling := inv.polling
      began := by simp
      covered := fun taken took returned => by
        cases took
        exact Or.inr ⟨inv.current atTake returned, by simp⟩ }
  case h_2 slot atPublish =>
    have took : state.signaler.taken = some slot := by rw [atPublish, SignalerPc.taken]
    cases stepped
    exact {
      unpublished := by simp
      published := fun _ _ => final
      armed := by simp
      current := by simp
      inWindow := by simp
      tookAsync := fun taken same => by
        cases same
        exact inv.tookAsync _ took
      polling := inv.polling
      began := by simp
      covered := fun taken same returned => by
        cases same
        exact (inv.covered _ took returned).imp id fun pending => ⟨pending.1, by simp⟩ }
  case h_3 slot atWake =>
    have took : state.signaler.taken = some slot := by rw [atWake, SignalerPc.taken]
    cases stepped
    exact {
      unpublished := by simp
      published := fun _ _ => inv.published _ (Or.inl atWake)
      armed := by simp
      current := by simp
      inWindow := by simp
      tookAsync := fun taken same => by
        cases same
        exact inv.tookAsync _ took
      polling := inv.polling
      began := fun taken waker same _ wakened member => by
        cases same
        exact List.mem_append_left _ member
      covered := fun taken same returned => by
        cases same
        refine Or.inl ?_
        rcases inv.covered _ took returned with woken | ⟨rfl, -⟩
        · exact List.mem_append_right _ woken
        · exact List.mem_append_left _ (List.mem_singleton.mpr rfl) }
  case h_4 => cases stepped

/-- The steps of `rearm`. Only here is the condition needed: a poll that is told `Armed` by a slot
the signaler has already emptied relies on its waker being the one that was taken. -/
theorem invariant_rearm {state next : State} (inv : Invariant state)
    (first : firstInWindow state .advance = true) (stepped : rearm state = some next) :
    Invariant next := by
  unfold rearm at stepped
  split at stepped
  case h_1 waker atRegister =>
    have latest := inv.polling waker (Or.inl atRegister)
    have stored : (state.entry.register waker).waker = .async waker := storeAsync_slot _ _
    dsimp only at stepped
    split at stepped
    · rename_i armed
      have occupied : state.entry.waker ≠ .none := fun vacant => by
        rw [Signal.registered, (storeAsync_wasEmpty_iff _ _).mpr vacant] at armed
        cases armed
      cases stepped
      exact {
        unpublished := inv.unpublished
        published := inv.published
        armed := fun _ => ⟨waker, stored⟩
        current := fun _ _ => stored.trans (congrArg _ latest.symm)
        inWindow := by simp
        tookAsync := inv.tookAsync
        polling := by simp
        began := by simp
        covered := fun taken took _ => by
          have same : taken = .async waker := by
            simpa [firstInWindow, atRegister, took, occupied] using first
          by_cases finished : state.signaler = .done taken
          · refine Or.inl (inv.began taken waker finished atRegister _ ?_)
            rw [same, latest, wakes]
            exact List.mem_singleton.mpr rfl
          · exact Or.inr ⟨same.trans (congrArg _ latest.symm), finished⟩ }
    · rename_i wasEmpty
      have vacant := (storeAsync_wasEmpty_iff _ _).mp wasEmpty
      have tookIt : state.signaler ≠ .take := fun atTake => by
        obtain ⟨old, slot⟩ := inv.armed atTake
        rw [vacant] at slot
        cases slot
      cases stepped
      exact {
        unpublished := inv.unpublished
        published := inv.published
        armed := fun _ => ⟨waker, stored⟩
        current := by simp
        inWindow := fun atTake => absurd atTake tookIt
        tookAsync := inv.tookAsync
        polling := by simpa using latest
        began := by simp
        covered := by simp }
  case h_2 waker atLoad =>
    have latest := inv.polling waker (Or.inr (Or.inl atLoad))
    have tookIt : state.signaler ≠ .take := fun atTake => (inv.inWindow atTake waker).1 atLoad
    split at stepped <;> cases stepped
    · exact {
        unpublished := inv.unpublished
        published := inv.published
        armed := inv.armed
        current := by simp
        inWindow := by simp
        tookAsync := inv.tookAsync
        polling := by simp
        began := by simp
        covered := by simp }
    · exact {
        unpublished := inv.unpublished
        published := inv.published
        armed := inv.armed
        current := by simp
        inWindow := fun atTake => absurd atTake tookIt
        tookAsync := inv.tookAsync
        polling := by simpa using latest
        began := by simp
        covered := by simp }
  case h_3 waker atWake =>
    have latest := inv.polling waker (Or.inr (Or.inr atWake))
    cases stepped
    exact {
      unpublished := inv.unpublished
      published := inv.published
      armed := inv.armed
      current := fun atTake => absurd atWake (inv.inWindow atTake waker).2
      inWindow := by simp
      tookAsync := inv.tookAsync
      polling := by simp
      began := by simp
      covered := fun _ _ _ => Or.inl (latest ▸ List.mem_cons_self) }
  case h_4 => cases stepped
  case h_5 => cases stepped

/-- A poll begins: it enters `rearm` only while the value is not published. -/
theorem invariant_pollEntry {state next : State} {waker : Waker} (inv : Invariant state)
    (stepped : pollEntry state waker = some next) : Invariant next := by
  unfold pollEntry at stepped
  split at stepped
  · split at stepped <;> cases stepped
    · rename_i waiting
      exact {
        unpublished := inv.unpublished
        published := inv.published
        armed := inv.armed
        current := by simp
        inWindow := by simp
        tookAsync := inv.tookAsync
        polling := by simp
        began := fun taken _ finished => by
          have final := inv.published taken (Or.inr finished)
          rw [waiting] at final
          cases final
        covered := by simp }
    · exact {
        unpublished := inv.unpublished
        published := inv.published
        armed := inv.armed
        current := by simp
        inWindow := by simp
        tookAsync := inv.tookAsync
        polling := by simp
        began := by simp
        covered := by simp }
  · cases stepped

/-- The invariant holds along every run that meets the condition. -/
theorem invariant_of_reachable {value : SignalValue} (final : value.isFinal = true) {state : State}
    (reach : RunsInWindow value state) : Invariant state := by
  refine reach.invariant _ ?_ ?_
  · rintro _ ⟨first, rfl⟩
    exact invariant_start first
  · intro state label next _ inv stepped first
    cases label with
    | poll waker => exact invariant_pollEntry inv stepped
    | advance => exact invariant_rearm inv first stepped
    | signal => exact invariant_signalNode final inv stepped

/-! ### Wakeups -/

/-- **No re-poll loses its wakeup**, whatever the wakers and the interleaving, in a run in which
every poll that registers after the signaler's `take` finds the slot empty or brings the taken
waker. -/
theorem repoll_woken {value : SignalValue} (final : value.isFinal = true) {state : State}
    (reach : RunsInWindow value state) : Woken state := by
  intro finished returned
  have inv := invariant_of_reachable final reach
  cases position : state.signaler with
  | done taken =>
    have took : state.signaler.taken = some taken := by rw [position, SignalerPc.taken]
    exact (inv.covered taken took returned).resolve_right fun pending => pending.2 position
  | _ => simp [position, SignalerPc.finished] at finished

/-- One poll in the window, by another task than the one that was taken: it wakes itself. -/
def pollInWindow : List Label :=
  [.signal, .poll 1, .advance, .advance, .advance, .signal, .signal]

/-- The condition is met by such a run, which ends with the signaler finished and the poll
pending. -/
theorem repoll_woken_once : ∃ state, RunsInWindow .signaled state ∧
    state.signaler.finished = true ∧ state.poll = .pending ∧ state.latest ∈ state.woken := by
  obtain ⟨state, reach, ended⟩ := System.exists_reachableBy_of_run (machine .signaled)
    (fun state label _ => firstInWindow state label)
    (fun state => state.signaler.finished && state.poll = .pending) ⟨0, rfl⟩ pollInWindow
      (by decide)
  simp only [Bool.and_eq_true, decide_eq_true_eq] at ended
  exact ⟨state, reach, ended.1, ended.2, repoll_woken rfl reach ended.1 ended.2⟩

/-- A second poll in the window, again by the task that polled first: the slot holds its own waker
from the first poll, so it is told `Armed`, but the signaler wakes the waker it took before both. -/
def pollTwiceInWindow : List Label :=
  [.signal, .poll 1, .advance, .advance, .advance, .poll 1, .advance, .signal, .signal]

/-- **The second re-poll in the window is never woken.** -/
theorem repoll_lost : ∃ state, (machine .signaled).Reachable state ∧ ¬ Woken state := by
  obtain ⟨state, reach, ended⟩ := System.exists_reachable_of_run (machine .signaled)
    (fun state => !decide (Woken state)) ⟨0, rfl⟩ pollTwiceInWindow (by decide)
  exact ⟨state, reach, by simpa using ended⟩

end Xutex.Rearm
