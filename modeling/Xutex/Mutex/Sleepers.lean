/-
**The mutex and its sleepers: nobody sleeps through a hand-over.**

`sleeping` declares what the program points of the mutex mean for the waker slots, and every step is
one of the turns that `Sleepers` allows. The word of the mutex is its queue's lock as well, so the
queue is the one of the status, and a node stays in it as long as the status says.
-/

import Xutex.Core.Sleepers
import Xutex.Mutex.Word

set_option linter.unusedSectionVars false

namespace Xutex.Mutex

open Concurrency Discipline PointerWidth Sleeping

variable {ι : Type} [DecidableEq ι]

/-! ### The declared program points -/

def nodeAt : Pc ι → NodeRole
  | .pollLock waker => .polling waker
  | .contendLock mode | .contendInit mode | .contendTag mode _ | .allocate mode | .push mode _ =>
    .armed mode
  | .publish mode _ _ => .linked mode
  | .waitSpin | .waitSwap => .thread
  | .waitPark => .parked
  | .future => .rest
  | .rearmRegister waker => .register waker
  | .rearmLoad => .reload none
  | .cancelUntag _ false | .cancelSpin => .gone
  | _ => .apart

def takesSlotAt : Pc ι → Option ι
  | .signalTake node => some node
  | _ => none

def publishesValueAt : Pc ι → Option ι
  | .signalPublish node => some node
  | _ => none

def registersAt : Pc ι → Option Waker
  | .rearmRegister waker => some waker
  | _ => none

def pollsWith : Move → Option Waker
  | .poll waker => some waker
  | _ => none

/-- Only the loop around `park` parks. -/
theorem eq_waitPark {pc : Pc ι} (parked : nodeAt pc = .parked) : pc = .waitPark := by
  cases pc
  case publish mode _ _ => cases mode <;> cases parked
  case cancelUntag _ found => cases found <;> cases parked
  all_goals first | rfl | cases parked

theorem armed_free {pc : Pc ι} {mode : Mode} (value : SignalValue)
    (armed : nodeAt pc = .armed mode) : waitsAt pc value = false := by
  cases pc
  case publish mode _ _ => cases mode <;> cases armed
  case cancelUntag _ found => cases found <;> cases armed
  all_goals first | rfl | cases armed

theorem gone_waits {pc : Pc ι} (value : SignalValue) (gone : nodeAt pc = .gone) :
    waitsAt pc value = true := by
  cases pc
  case publish mode _ _ => cases mode <;> cases gone
  case cancelUntag _ found =>
    cases found with
    | false => rfl
    | true => cases gone
  all_goals first | rfl | cases gone

theorem signaler_apart {pc : Pc ι} (busy : chainOf pc ≠ []) : nodeAt pc = .apart := by
  cases pc <;> first | rfl | exact absurd rfl busy

/-- The node of the party is in the queue of the mutex. -/
def Linked (width : PointerWidth) (state : State ι) (party : ι) : Prop :=
  ∃ status, Described width state status ∧ party ∈ status.entries state.queues

/-- **The mutex with its sleepers.** -/
def sleeping (ι : Type) [DecidableEq ι] (width : PointerWidth) :
    Sleeping (State ι) ι (Pc ι) Move where
  core := machine ι width
  discipline := discipline
  signal := State.signal
  pc := State.pc
  advance := .advance
  polls := pollsWith
  roleAt := nodeAt
  shows state queue := ∃ status, Described width state status ∧ queue = (state.waiters status).queue
  stays := Linked width
  takes := takesSlotAt
  publishes := publishesValueAt
  registers := registersAt
  takesChain {pc node} takes := by
    cases pc <;> simp_all [takesSlotAt, discipline, chainOf]
  publishesChain {pc node} publishes := by
    cases pc <;> simp_all [publishesValueAt, discipline, chainOf]
  takesOnly {pc node} takes := by
    cases pc <;> simp_all [takesSlotAt, publishesValueAt]
  armedFree := armed_free
  signalerApart := signaler_apart
  goneWaits := gone_waits
  advanceQuiet := rfl

/-! ### Every step is a turn -/

section Turned

variable {width : PointerWidth} {state next : State ι} {status : Status ι} {party : ι} {pc : Pc ι}
  {mode : Mode} {ptr : ℕ}

/-- The step is a turn of `party`, made by the move `move`. -/
abbrev TurnedBy (width : PointerWidth) (state next : State ι) (party : ι) (move : Move) : Prop :=
  (sleeping ι width).Turned state next (party, move)

/-- The program point neither takes a slot nor publishes a value. -/
abbrev Silent (pc : Pc ι) : Prop := takesSlotAt pc = none ∧ publishesValueAt pc = none

theorem contendAcquired_turned {word : ℕ} (source : state.pc party = .contendLock mode) :
    TurnedBy width state (contendAcquired { state with word := word } party mode)
      party .advance := by
  cases mode with
  | wait => exact .apart source rfl rfl ⟨rfl, rfl, rfl⟩ rfl
  | poll waker => exact .own source rfl rfl ⟨rfl, rfl, rfl⟩ (.done rfl)

theorem contendNext_role (width : PointerWidth) (mode : Mode) (word : ℕ) :
    nodeAt (contendNext width mode word : Pc ι) = .armed mode ∧
      publishesValueAt (contendNext width mode word : Pc ι) = none := by
  unfold contendNext
  split
  · exact ⟨rfl, rfl⟩
  · split
    · exact ⟨rfl, rfl⟩
    · split <;> exact ⟨rfl, rfl⟩

theorem unlockNext_role (width : PointerWidth) (word : ℕ) :
    nodeAt (unlockNext width word : Pc ι) = .apart ∧
      publishesValueAt (unlockNext width word : Pc ι) = none := by
  unfold unlockNext
  split
  · exact ⟨rfl, rfl⟩
  · split <;> exact ⟨rfl, rfl⟩

theorem pollLock_turned {waker : Waker} (source : state.pc party = .pollLock waker) :
    TurnedBy width state (pollLock width state party waker) party .advance := by
  unfold pollLock
  split
  · exact .own source rfl rfl ⟨rfl, rfl, rfl⟩ (.done rfl)
  · obtain ⟨armed, silent⟩ := contendNext_role (ι := ι) width (.poll waker) state.word
    refine .own source rfl rfl ⟨rfl, rfl, silent⟩ ?_
    show (sleeping ι width).Turn _ _ _ _ _ _ _ (nodeAt _)
    rw [armed]
    exact .armTask rfl (storeAsync_slot _ _)

theorem contendLock_turned (source : state.pc party = .contendLock mode) :
    TurnedBy width state (contendLock width state party mode) party .advance := by
  unfold contendLock
  split
  · exact contendAcquired_turned source
  · obtain ⟨armed, silent⟩ := contendNext_role (ι := ι) width mode state.word
    exact .armed source rfl rfl ⟨rfl, rfl, silent⟩ rfl rfl armed

theorem push_turned (described : Described width state status)
    (source : state.pc party = .push mode ptr) :
    TurnedBy width state (push state party mode ptr) party .advance := by
  have value : (state.signal party).value = armedValue mode :=
    described.waiting.owned party _ (congrArg ownValue source)
  exact .goto source rfl rfl ⟨rfl, rfl, rfl⟩ (.push rfl rfl (value ▸ armedValue_unsignalled mode))

theorem publish_turned {first : Bool} (source : state.pc party = .publish mode ptr first) :
    TurnedBy width state (publish state party mode ptr first) party .advance := by
  cases mode with
  | poll waker =>
    exact .goto source rfl rfl ⟨rfl, rfl, rfl⟩ (.same rfl NodeRole.noConfusion rfl rfl id)
  | wait =>
    cases first <;> exact .goto source rfl rfl ⟨rfl, rfl, rfl⟩
      (.same rfl NodeRole.noConfusion rfl rfl fun _ => rfl)

/-- Only `SIGNAL_SIGNALED` ends a wait. -/
theorem fresh_of_ne_signaled (described : Described width state status)
    (given : waitsAt (state.pc party) (state.signal party).value = true)
    (different : (state.signal party).value ≠ .signaled) :
    (state.signal party).value.isFinal = false := by
  by_contra final
  rw [Bool.not_eq_false] at final
  exact different (of_decide_eq_true (described.waiting.signalled party given final))

theorem waitSpin_turned (source : state.pc party = .waitSpin) :
    TurnedBy width state (waitSpin state party) party .advance := by
  unfold waitSpin
  split
  · exact .apart source rfl rfl ⟨rfl, rfl, rfl⟩ rfl
  · exact .goto source rfl rfl ⟨rfl, rfl, rfl⟩ (.same rfl NodeRole.noConfusion rfl rfl fun _ => rfl)

theorem waitSwap_turned (described : Described width state status)
    (source : state.pc party = .waitSwap) :
    TurnedBy width state (waitSwap state party) party .advance := by
  unfold waitSwap
  dsimp only
  split
  · exact .own source rfl rfl ⟨rfl, rfl, rfl⟩ .apart
  · rename_i different
    have fresh := fresh_of_ne_signaled described (by rw [source]; rfl) different
    exact .own source rfl rfl ⟨rfl, rfl, rfl⟩ (.sleep rfl rfl fresh rfl)

theorem rearmRegister_turned {waker : Waker} (source : state.pc party = .rearmRegister waker) :
    TurnedBy width state (rearmRegister state party waker) party .advance := by
  unfold rearmRegister
  dsimp only
  split
  · rename_i armed
    exact .own source rfl rfl ⟨rfl, rfl, rfl⟩
      (.rearm rfl rfl (full_of_armed armed) (storeAsync_slot _ _) rfl id)
  · rename_i found
    have empty : (state.signal party).waker = .none := (storeAsync_wasEmpty_iff _ _).mp found
    exact .own source rfl rfl ⟨rfl, rfl, rfl⟩ (.refill rfl (by rintro _ ⟨⟩) empty rfl id)

theorem rearmLoad_turned (source : state.pc party = .rearmLoad) :
    TurnedBy width state (rearmLoad state party) party .advance := by
  unfold rearmLoad
  split
  · exact .own source rfl rfl ⟨rfl, rfl, rfl⟩ (.done rfl)
  · rename_i fresh
    exact .goto source rfl rfl ⟨rfl, rfl, rfl⟩ (.wakeSelf rfl (Bool.eq_false_iff.mpr fresh) rfl id)

/-- A node that is not in the queue of the status is not linked. -/
theorem not_linked (described : Described width state status)
    (absent : party ∉ status.entries state.queues) : ¬Linked width state party := by
  rintro ⟨other, described', linked⟩
  rw [described.unique described'] at linked
  exact absent linked

theorem cancelLoad_turned (described : Described width state status)
    (source : state.pc party = .cancelLoad)
    (stepped : cancelLoad width state party = some next) :
    TurnedBy width state next party .advance := by
  unfold cancelLoad at stepped
  split at stepped
  · rename_i none
    cases stepped
    have empty : status.entries state.queues = [] := by
      rcases none with free | locked
      · rw [described.encodes.unlocked_iff.mp free]
        rfl
      · rw [described.encodes.eq_locked locked]
        rfl
    have unlinked :=
      not_linked described (empty ▸ List.not_mem_nil : party ∉ status.entries state.queues)
    exact .goto source rfl rfl ⟨rfl, rfl, rfl⟩ (.missing unlinked rfl)
  · split at stepped
    · cases stepped
    · split at stepped <;> cases stepped
      exact .apart source rfl rfl ⟨rfl, rfl, rfl⟩ rfl

theorem cancelRemove_turned (described : Described width state status)
    (source : state.pc party = .cancelRemove ptr) :
    TurnedBy width state (cancelRemove state party ptr) party .advance := by
  have held : status = .held party ptr := described.here source
  unfold cancelRemove
  by_cases linked : party ∈ state.queues ptr
  · rw [decide_eq_true linked]
    exact .apart source rfl rfl ⟨rfl, rfl, rfl⟩ rfl
  · rw [decide_eq_false linked]
    have unlinked := not_linked described (by rw [held]; exact linked)
    exact .goto source rfl rfl ⟨rfl, rfl, rfl⟩ (.missing unlinked rfl)

theorem cancelUntag_turned {found : Bool} (source : state.pc party = .cancelUntag ptr found) :
    TurnedBy width state (cancelUntag state party ptr found) party .advance := by
  cases found with
  | true => exact .apart source rfl rfl ⟨rfl, rfl, rfl⟩ rfl
  | false =>
    exact .goto source rfl rfl ⟨rfl, rfl, rfl⟩ (.same rfl NodeRole.noConfusion rfl rfl fun _ => rfl)

/-- The drop of a guard goes on with a word that it has read. -/
theorem unlockNext_turned (source : state.pc party = pc) (silent : Silent pc) :
    TurnedBy width state (state.goto party (unlockNext width state.word)) party .advance := by
  obtain ⟨apart, silent'⟩ := unlockNext_role (ι := ι) width state.word
  exact .apart source rfl rfl ⟨silent.1, silent.2, silent'⟩ apart

/-- **Every step inside a call is a turn.** -/
theorem advance_turned (described : Described width state status)
    (stepped : advance width state party = some next) :
    TurnedBy width state next party .advance := by
  cases source : state.pc party <;>
    simp only [advance, source, Option.some.injEq, reduceCtorEq] at stepped
  case cancelLoad => exact cancelLoad_turned described source stepped
  case waitPark | cancelSpin =>
    simp only [waitPark, cancelSpin] at stepped
    split at stepped <;> cases stepped
    exact .apart source rfl rfl ⟨rfl, rfl, rfl⟩ rfl
  all_goals subst stepped
  case lock =>
    unfold lock
    split
    · exact .apart source rfl rfl ⟨rfl, rfl, rfl⟩ rfl
    · exact .own source rfl rfl ⟨rfl, rfl, rfl⟩ (.armThread rfl)
  case pollLock => exact pollLock_turned source
  case contendLock => exact contendLock_turned source
  case contendInit | contendTag =>
    simp only [contendInit, contendTag]
    split <;> exact .armed source rfl rfl ⟨rfl, rfl, rfl⟩ rfl rfl rfl
  case push => exact push_turned described source
  case publish => exact publish_turned source
  case waitSpin => exact waitSpin_turned source
  case waitSwap => exact waitSwap_turned described source
  case rearmRegister => exact rearmRegister_turned source
  case rearmLoad => exact rearmLoad_turned source
  case cancelRemove => exact cancelRemove_turned described source
  case cancelUntag => exact cancelUntag_turned source
  case unlockReload => exact unlockNext_turned source ⟨rfl, rfl⟩
  case unlock | unlockTag =>
    simp only [unlock, unlockTag]
    split
    · exact .apart source rfl rfl ⟨rfl, rfl, rfl⟩ rfl
    · exact unlockNext_turned source ⟨rfl, rfl⟩
  case tryLock | cancelTag | unlockPop =>
    simp only [tryLock, cancelTag, unlockPop]
    split <;> exact .apart source rfl rfl ⟨rfl, rfl, rfl⟩ rfl
  case unlockUntag | unlockFree => exact .apart source rfl rfl ⟨rfl, rfl, rfl⟩ rfl
  case signalTake => exact .take source rfl rfl rfl rfl rfl
  case signalPublish => exact .publish source rfl rfl rfl rfl rfl rfl rfl .apart

theorem poll_turned {waker : Waker} (described : Described width state status)
    (source : state.pc party = .future) :
    TurnedBy width state (poll state party waker) party (.poll waker) := by
  have fresh (waits : valueWaits (state.signal party).value = true)
      (different : (state.signal party).value ≠ .signaled) :
      (state.signal party).value.isFinal = false :=
    fresh_of_ne_signaled described (by rw [source]; exact waits) different
  unfold poll
  split <;> rename_i value
  case h_1 => exact .goto source rfl rfl ⟨rfl, rfl, rfl⟩ (.begins rfl rfl never)
  case h_2 => exact .own source rfl rfl ⟨rfl, rfl, rfl⟩ (.done rfl)
  case h_3 =>
    have pcs : (state.report party .polledAfterCompletion).pc =
        Function.update state.pc party .future := by
      rw [← source, Function.update_eq_self]
      rfl
    refine .goto source pcs rfl ⟨rfl, rfl, rfl⟩ (.done ?_)
    show valueWaits (state.signal party).value = false
    rw [value]
    rfl
  all_goals
    refine .goto source rfl rfl ⟨rfl, rfl, rfl⟩ (.looks (.inl ⟨rfl, rfl⟩) ?_ rfl id)
    exact fresh (by rw [value]; rfl) (by rw [value]; rintro ⟨⟩)

theorem drop_turned (source : state.pc party = .future) :
    TurnedBy width state (drop state party) party .drop := by
  unfold drop
  split <;> exact .apart source rfl rfl ⟨rfl, rfl, rfl⟩ rfl

/-- **The beginning of every call is a turn.** -/
theorem begin_turned {move : Move} (described : Described width state status)
    (stepped : begin width state party move = some next) :
    TurnedBy width state next party move := by
  cases move <;> simp only [begin] at stepped
  case advance => cases stepped
  case allocate =>
    split at stepped
    · rename_i source
      split at stepped <;> cases stepped
      exact .armed source rfl rfl ⟨rfl, rfl, rfl⟩ rfl rfl rfl
    · cases stepped
  all_goals
    split at stepped <;> cases stepped
    rename_i source
  case tryLock | lock => exact .apart source rfl rfl ⟨rfl, rfl, rfl⟩ rfl
  case create => exact .own source rfl rfl ⟨rfl, rfl, rfl⟩ (.done rfl)
  case poll => exact poll_turned described source
  case drop => exact drop_turned source
  case dropGuard => exact .apart source.1 rfl rfl ⟨rfl, rfl, rfl⟩ rfl

end Turned

/-! ### The queue -/

section Linked

variable {width : PointerWidth} {state next : State ι} {status status' : Status ι} {label : Label ι}
  {other : ι}

/-- **A party links nobody but itself**, and not while its node is given away. -/
theorem linked_before (described : Described width state status)
    (after : Described width next status') (stepped : step width state label = some next)
    (given : other = label.1 → waitsAt (state.pc other) (state.signal other).value = true)
    (linked : other ∈ status'.entries next.queues) : other ∈ status.entries state.queues := by
  have rest (other : ι) (different : other ≠ label.1) := step_rest stepped different
  cases step_access stepped with
  | quiet word queues before =>
    have same : status' = status := described.same after word fun other held =>
      rest other fun self => by simp [self, before] at held
    rw [same, queues] at linked
    exact linked
  | acquires source free word =>
    obtain rfl := after.encodes.eq_locked word
    cases linked
  | @claims party mode source found word queues target =>
    obtain rfl : status' = .updating party := after.eq_of_statusAt (by rw [target]; rfl)
    cases linked
  | @allocates party mode ptr source queue word queues target =>
    obtain rfl : status' = .held party ptr := after.eq_of_statusAt (by rw [target]; rfl)
    simp [Status.entries, queues] at linked
  | @tags party ptr source found word queues target =>
    obtain rfl := described.claims_queue source found
    obtain rfl : status' = .held party ptr := after.eq_of_statusAt (statusAt_of_accesses target)
    rw [queues] at linked
    exact linked
  | @pushes party mode ptr source word queues target =>
    obtain rfl : status = .held party ptr := described.eq_of_statusAt (by rw [source]; rfl)
    obtain rfl : status' = .held party ptr := after.eq_of_statusAt (by rw [target]; rfl)
    simp only [Status.entries, queues, Function.update_self, List.mem_append,
      List.mem_singleton] at linked
    refine linked.resolve_right fun self => ?_
    subst self
    have waits := given rfl
    rw [source] at waits
    cases waits
  | @removes party ptr source word queues target =>
    obtain rfl : status = .held party ptr := described.eq_of_statusAt (by rw [source]; rfl)
    obtain rfl : status' = .held party ptr := after.eq_of_statusAt (by rw [target]; rfl)
    simp only [Status.entries, queues, Function.update_self] at linked
    exact List.mem_of_mem_erase linked
  | @pops party ptr node behind source front word queues target =>
    obtain rfl : status = .held party ptr := described.eq_of_statusAt (by rw [source]; rfl)
    obtain rfl : status' = .held party ptr := after.eq_of_statusAt (by rw [target]; rfl)
    simp only [Status.entries, queues, Function.update_self] at linked
    rw [Status.entries, front]
    exact List.mem_cons_of_mem node linked
  | @empties party ptr source none word queues target =>
    obtain rfl : status = .held party ptr := described.eq_of_statusAt (by rw [source]; rfl)
    obtain rfl : status' = .held party ptr := after.eq_of_statusAt (by rw [target]; rfl)
    rw [queues] at linked
    exact linked
  | @stores party ptr source word queues =>
    obtain rfl : status = .held party ptr := described.eq_of_statusAt (statusAt_of_stores source)
    obtain rfl := described.stored after word
    rw [queues] at linked
    exact linked
  | frees ptr source word =>
    obtain rfl := after.encodes.unlocked_iff.mp word
    cases linked
  | unlocks source found word =>
    obtain rfl := after.encodes.unlocked_iff.mp word
    cases linked
  | @signals party node source word queues target =>
    have same : status' = status := described.same after word fun other held =>
      rest other fun self => by simp [show other = party from self, source, lockedAt] at held
    rw [same, queues] at linked
    exact linked

end Linked

/-! ### Reachable states -/

variable [Fintype ι]

theorem described_of_reachable {width : PointerWidth} {allowed : State ι → Label ι → State ι → Prop}
    {state : State ι}
    (reach : (machine ι width).ReachableBy allowed state) :
    ∃ status, Described width state status := by
  obtain ⟨status, owned⟩ := owned_of_reachable (reach.mono fun _ _ _ _ => trivial)
  exact ⟨status, owned.toDescribed⟩

/-- **The mutex wakes whom it hands the lock to**, in the runs of any condition on the steps. -/
theorem sound (width : PointerWidth) (allowed : State ι → Label ι → State ι → Prop) :
    (sleeping ι width).Sound allowed where
  start {state} initial party := by
    obtain ⟨queues, rfl⟩ := initial
    rfl
  queue {state} reach := by
    obtain ⟨status, described⟩ := described_of_reachable reach
    exact ⟨_, ⟨status, described, rfl⟩, described.waiting⟩
  stays {state label next other} reach stepped permitted given stays := by
    obtain ⟨status', after, linked⟩ := stays
    obtain ⟨status, described⟩ := described_of_reachable reach
    exact ⟨status, described, linked_before described after stepped given linked⟩
  turned {state label next} reach stepped _ := by
    obtain ⟨party, move⟩ := label
    obtain ⟨status, described⟩ := described_of_reachable reach
    have stepped : step width state (party, move) = some next := stepped
    unfold step at stepped
    split at stepped
    · rename_i advances
      rw [show move = .advance from advances]
      exact advance_turned described stepped
    · exact begin_turned described stepped
  asleep {state party} reach parked stopped := by
    obtain ⟨status, described⟩ := described_of_reachable reach
    have source : state.pc party = .waitPark := eq_waitPark parked
    have stopped : advance width state party = none := stopped
    refine fresh_of_ne_signaled described (by rw [source]; rfl) fun signaled => ?_
    simp [advance, source, waitPark, signaled] at stopped

end Xutex.Mutex
