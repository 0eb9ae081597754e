/-
**What the word of the mutex stands for, and the discipline of its queue.**

A value of the word says whether the mutex is locked and where its queue is, but not who edits the
queue. `Status` says both; `Encodes` relates it to the word. A state is `Described` by a status when
the word encodes it, when each party that works on a queue works on the queue of this status, and
when the nodes keep the discipline of `Waiters` for that queue.

* `LocalAt` — what a program point knows: the holder of the queue knows the status, and a pointer
  about to be tagged is a queue's. `LocalAt.unmoved`: what the other parties know outlives every
  change of the status, for only its holder can make one.
* `Turn` — one step of a party from one status to another, as every function of the mutex makes it.
-/

import Xutex.Core.Waiters
import Xutex.Mutex.Model

set_option linter.unusedSectionVars false

namespace Xutex.Mutex

open Concurrency Discipline PointerWidth

variable {ι : Type} [DecidableEq ι]

/-! ### The status -/

/-- What the mutex is: unlocked, locked without a queue, or locked with a queue that one party
allocates or edits (`updating`, `held`) or that is at rest (`queue`). -/
inductive Status (ι : Type)
  | unlocked
  | locked
  | updating (party : ι)
  | held (party : ι) (ptr : ℕ)
  | queue (ptr : ℕ)

namespace Status

/-- The party that has exclusive access to the queue. -/
def holder : Status ι → Option ι
  | unlocked | locked | queue _ => none
  | updating party | held party _ => some party

/-- The linked nodes. -/
def entries (queues : ℕ → List ι) : Status ι → List ι
  | unlocked | locked | updating _ => []
  | held _ ptr | queue ptr => queues ptr

/-- The tokens of ownership that are about. -/
def tokens : Status ι → ℕ
  | unlocked => 0
  | locked | updating _ | held _ _ | queue _ => 1

end Status

/-- The values of the word for a status. A queue filled for the first time is hidden behind
`UPDATING`, later it is tagged. -/
def Encodes (width : PointerWidth) (word : ℕ) : Status ι → Prop
  | .unlocked => word = unlocked
  | .locked => word = width.locked
  | .updating _ => word = width.updating
  | .held _ ptr => width.IsQueue ptr ∧ (word = width.updating ∨ word = tagPointer ptr)
  | .queue ptr => width.IsQueue ptr ∧ word = ptr

section Encodes

variable {width : PointerWidth} {word ptr : ℕ} {status : Status ι}

section

variable (encodes : Encodes width word status)
include encodes

theorem Encodes.unlocked_iff : word = unlocked ↔ status = .unlocked := by
  have pos := width.updating_pos
  have top := width.updating_lt_locked
  constructor
  · rintro rfl
    cases status with
    | unlocked => rfl
    | locked => simp only [Encodes, unlocked] at encodes; omega
    | updating party => simp only [Encodes, unlocked] at encodes; omega
    | held party ptr =>
      obtain ⟨queue, updating | tagged⟩ := encodes
      · simp only [unlocked] at updating; omega
      · simp only [unlocked, tagPointer_eq queue.even] at tagged; omega
    | queue ptr => exact absurd encodes.2.symm encodes.1.1
  · rintro rfl
    exact encodes

/-- Only the locked mutex without a queue shows `LOCKED`. -/
theorem Encodes.eq_locked (same : word = width.locked) : status = .locked := by
  subst same
  have pos := width.updating_pos
  have top := width.updating_lt_locked
  cases status with
  | unlocked => simp only [Encodes, unlocked] at encodes; omega
  | locked => rfl
  | updating party => exact absurd encodes top.ne'
  | held party ptr =>
    obtain ⟨queue, updating | tagged⟩ := encodes
    · exact absurd updating top.ne'
    · exact absurd tagged.symm queue.apart.2.2.2
  | queue ptr => exact absurd encodes.2.symm encodes.1.apart.2.1

/-- Only a queue at rest shows its own address. -/
theorem Encodes.eq_queue (queue : width.IsQueue ptr) (same : word = ptr) : status = .queue ptr := by
  subst same
  cases status with
  | unlocked => exact absurd encodes queue.1
  | locked => exact absurd encodes queue.apart.2.1
  | updating party => exact absurd encodes queue.apart.1
  | held party ptr =>
    obtain ⟨other, updating | tagged⟩ := encodes
    · exact absurd updating queue.apart.1
    · have even := queue.even
      have even' := other.even
      rw [tagPointer_eq even'] at tagged
      omega
  | queue ptr => rw [encodes.2]

/-- Only a queue in the hands of a party shows its tagged address. -/
theorem Encodes.eq_held (queue : width.IsQueue ptr) (tagged : word = tagPointer ptr) :
    ∃ party, status = .held party ptr := by
  have even := queue.even
  cases status with
  | unlocked =>
    rw [tagPointer_eq even] at tagged
    simp only [Encodes, unlocked] at encodes
    omega
  | locked => exact absurd (tagged.symm.trans encodes) queue.apart.2.2.2
  | updating party => exact absurd (tagged.symm.trans encodes) queue.apart.2.2.1
  | held party other =>
    obtain ⟨queue', updating | same⟩ := encodes
    · exact absurd (tagged.symm.trans updating) queue.apart.2.2.1
    · rw [tagged, tagPointer_eq even, tagPointer_eq queue'.even] at same
      exact ⟨party, by rw [Nat.succ.inj same]⟩
  | queue other =>
    obtain ⟨queue', same⟩ := encodes
    have even' := queue'.even
    rw [tagPointer_eq even] at tagged
    omega

/-- A word that is none of the constants and carries no tag is a queue at rest. -/
theorem Encodes.untagged (locked : word ≠ unlocked)
    (sentinel : ¬(word = width.updating ∨ word = width.locked))
    (tag : ¬(untagPointer width word).2 = true) : width.IsQueue (untagPointer width word).1 := by
  cases status with
  | unlocked => exact absurd encodes locked
  | locked => exact absurd (.inr encodes) sentinel
  | updating party => exact absurd (.inl encodes) sentinel
  | held party ptr =>
    obtain ⟨queue, updating | rfl⟩ := encodes
    · exact absurd (.inl updating) sentinel
    · exact absurd queue.untag_tagged tag
  | queue ptr =>
    obtain ⟨queue, rfl⟩ := encodes
    rw [queue.untag]
    exact queue

end

end Encodes

/-! ### The declared program points -/

/-- The node a guard's drop has popped and not yet signalled. -/
def chainOf : Pc ι → List ι
  | .unlockUntag _ node | .signalTake node | .signalPublish node => [node]
  | _ => []

def waitsAt : Pc ι → SignalValue → Bool
  | .future, value | .rearmRegister _, value | .rearmLoad, value => valueWaits value
  | .publish mode _ _, value => modeWaits mode value
  | .waitSpin, _ | .waitSwap, _ | .waitPark, _ => true
  | .cancelLoad, _ | .cancelTag _, _ | .cancelRemove _, _ | .cancelSpin, _ => true
  | .cancelUntag _ found, _ => !found
  | _, _ => false

def lockedAt : Pc ι → Bool
  | .allocate _ | .push _ _ | .publish _ _ _ => true
  | .cancelRemove _ | .cancelUntag _ _ => true
  | .unlockPop _ | .unlockUntag _ _ | .unlockFree _ => true
  | _ => false

def ownValue : Pc ι → Option SignalValue
  | .contendLock mode | .contendInit mode | .contendTag mode _ => some (armedValue mode)
  | .allocate mode | .push mode _ => some (armedValue mode)
  | _ => none

/-- **The mutex's program points**, as far as waiting is concerned. A waiter is signalled with
`SIGNAL_SIGNALED` only. -/
def discipline : Discipline ι (Pc ι) where
  chain := chainOf
  waits := waitsAt
  locked := lockedAt
  own := ownValue
  signals signal := decide (signal = .signaled)
  signalsFinal {signal} kind := by
    rw [of_decide_eq_true kind]
    rfl
  signalledWaits {pc value signal} waits kind := by
    obtain rfl := of_decide_eq_true kind
    unfold waitsAt at waits ⊢
    split at waits <;> simp_all [valueWaits]
    rename Mode => mode
    cases mode <;> rfl
  signalerFree {pc} value busy := by
    cases pc <;> simp_all [chainOf, waitsAt]
  ownFree {pc value} other own := by
    cases pc <;> simp_all [ownValue, waitsAt]

/-- The part of the state that waiting is about, under a status. -/
def State.waiters (state : State ι) (status : Status ι) : Waiters ι (Pc ι) :=
  ⟨⟨status.holder, status.entries state.queues⟩, state.signal, state.pc⟩

/-! ### What a program point knows -/

/-- The holder of the queue knows the status, a pointer about to be tagged is a queue's, and the
node of a request that is polled again is given away. -/
def LocalAt (width : PointerWidth) (queues : ℕ → List ι) (status : Status ι) (party : ι)
    (value : SignalValue) : Pc ι → Prop
  | .allocate _ => status = .updating party
  | .push _ ptr | .publish _ ptr _ | .cancelRemove ptr | .cancelUntag ptr _ | .unlockPop ptr
  | .unlockUntag ptr _ => status = .held party ptr
  | .unlockFree ptr => status = .held party ptr ∧ queues ptr = []
  | .contendTag _ ptr | .cancelTag ptr | .unlockTag ptr => width.IsQueue ptr
  | .rearmRegister _ | .rearmLoad => valueWaits value = true
  | _ => True

section LocalAt

variable {width : PointerWidth} {queues queues' : ℕ → List ι} {status status' : Status ι}
  {party other : ι} {value value' : SignalValue} {pc : Pc ι}

/-- A signal does not end what a party knows. -/
theorem LocalAt.signalled (known : LocalAt width queues status other value pc)
    (waits : valueWaits value = true → valueWaits value' = true) :
    LocalAt width queues status other value' pc := by
  cases pc <;> simp only [LocalAt] at known ⊢ <;> first | exact known | exact waits known

/-- **What the other parties know outlives any change of the status** and of the queue by its
holder, and any change of a status that nobody holds. -/
theorem LocalAt.unmoved (known : LocalAt width queues status other value pc)
    (free : status.holder = none ∨ status.holder = some party) (different : other ≠ party) :
    LocalAt width queues' status' other value pc := by
  cases pc <;> simp only [LocalAt] at known ⊢ <;> try exact known
  all_goals
    simp only [known, Status.holder, reduceCtorEq, Option.some.injEq, false_or] at free
    exact absurd free different

end LocalAt

/-! ### A step from one status to another -/

/-- **The invariant**: the status says what the word, the queue and every program point mean. -/
structure Described (width : PointerWidth) (state : State ι) (status : Status ι) : Prop where
  encodes : Encodes width state.word status
  known : ∀ party, LocalAt width state.queues status party (state.signal party).value
    (state.pc party)
  waiting : discipline.Kept (state.waiters status)

/-- **One step of `party`**, from `pc` under `status` to `pc'` under `status'`. -/
structure Turn (width : PointerWidth) (state next : State ι) (status status' : Status ι) (party : ι)
    (pc pc' : Pc ι) : Prop where
  encodes : Encodes width next.word status'
  /-- The status and the queues change at the hands of the holder, or while there is none. -/
  change : (next.queues = state.queues ∧ status' = status) ∨
    status.holder = none ∨ status.holder = some party
  known : LocalAt width next.queues status' party (next.signal party).value pc'
  moves : discipline.Moves (state.waiters status) (next.waiters status') party pc pc'

variable {width : PointerWidth} {state next : State ι} {status status' : Status ι} {party : ι}
  {pc pc' : Pc ι}

/-- What the party of a turn knew. -/
theorem Described.here (described : Described width state status) (source : state.pc party = pc) :
    LocalAt width state.queues status party (state.signal party).value pc :=
  source ▸ described.known party

/-- **A turn keeps the invariant.** -/
theorem Described.step (described : Described width state status)
    (turn : Turn width state next status status' party pc pc') : Described width next status' where
  encodes := turn.encodes
  known other := by
    by_cases same : other = party
    · subst same
      rw [show next.pc other = pc' from turn.moves.self]
      exact turn.known
    · rw [show next.pc other = state.pc other from turn.moves.rest same]
      have waits : valueWaits (state.signal other).value = true →
          valueWaits (next.signal other).value = true := fun waits => by
        rcases described.waiting.value_other turn.moves same with keep | ⟨-, -, -, -, signals⟩
        · rw [show (next.signal other).value = (state.signal other).value from keep, waits]
        · rw [show (next.signal other).value = .signaled from of_decide_eq_true signals]
          rfl
      have known := (described.known other).signalled waits
      rcases turn.change with ⟨queues, rfl⟩ | free
      · rw [queues]
        exact known
      · exact known.unmoved free same
  waiting := described.waiting.step turn.moves

/-- A new mutex. -/
theorem Described.start (queues : ℕ → List ι) : Described width (start queues) .unlocked where
  encodes := rfl
  known _ := trivial
  waiting := Kept.start rfl fun _ => ⟨rfl, rfl, rfl, rfl⟩

end Xutex.Mutex
