/-
**Notifications are neither lost nor duplicated.**

A call of `notify_one` that stores a permit or pops a waiter issues a notification. From then on it
is in one place: it is the stored permit, it is on its way to a popped waiter or with one that has
not looked yet, or a dropped future is passing it on (`shareAt`); until a wait uses it up, or a
future that passes it on finds a permit already stored and the two become one. `Counted` says that
these places add up to what was issued; every step keeps the sum (`Settles`), of which only the
signal of a popped waiter changes the share of another party.

No bound on the broadcasts is needed: a generation that wraps around changes neither flag.
-/

import Xutex.Concurrency.Parties
import Xutex.Notify.Frames

set_option linter.unusedSectionVars false

namespace Xutex.Notify

open Concurrency Discipline
open scoped BigOperators

variable {ι : Type} [DecidableEq ι] {width : PointerWidth} {state before next : State ι} {party : ι}
  {pc pc' : Pc ι}

/-! ### Where a notification is -/

/-- The notifications on their way from this point: to popped waiters, or passed on by a dropped
future. -/
def carriesAt : Pc ι → ℕ
  | .notifyLoad passed | .notifyCas passed _ | .notifySlow passed => passed.toNat
  | .notifyLock passed | .notifyPop passed | .notifySlowCas passed _ => passed.toNat
  | .unlock (.popped passed none) | .unlockStore (.popped passed none) => passed.toNat
  | .unlock (.popped _ (some _)) | .unlockStore (.popped _ (some _)) => 1
  | .signalTake _ rest false | .signalPublish _ rest false => rest.length + 1
  | _ => 0

/-- The node of the party was signalled by `notify_one`, and its owner has not looked. -/
def toldAt (pc : Pc ι) (value : SignalValue) : ℕ :=
  if value = .signaled then (waitsAt pc .signaled).toNat else 0

/-- What is with a party. -/
def shareAt (pc : Pc ι) (value : SignalValue) : ℕ := carriesAt pc + toldAt pc value

def share (state : State ι) (party : ι) : ℕ := shareAt (state.pc party) (state.signal party).value

/-- What is with no party: the stored permit, and what has ended. -/
def settled (state : State ι) : ℕ := state.merged + state.consumed + (hasPermit state.word).toNat

/-- What a CAS on the permit has read. -/
def Compared : Pc ι → Prop
  | .tryCas _ cur | .enqueueCas _ cur => hasPermit cur = true
  | .notifyCas _ cur | .notifySlowCas _ cur => hasPermit cur = false
  | _ => True

/-- **The invariant of notifications.** -/
structure Counted [Fintype ι] (state : State ι) : Prop where
  count : state.issued = settled state + ∑ party, share state party
  points : ∀ party, Compared (state.pc party)

/-- A step uses up a notification only by taking the permit, or by reading `SIGNAL_SIGNALED`. -/
def Spends (state next : State ι) (party : ι) : Prop :=
  next.consumed = state.consumed ∨ (next.consumed = state.consumed + 1 ∧
    ((hasPermit state.word = true ∧ hasPermit next.word = false) ∨
      toldAt (state.pc party) (state.signal party).value = 1))

/-- **What a step of a party does to the notifications**, if it signals nobody. -/
structure Settles (state next : State ι) (party : ι) : Prop where
  others : ∀ other, other ≠ party → (next.signal other).value = (state.signal other).value
  balance : next.issued + settled state + share state party = state.issued + settled next +
    share next party
  spends : Spends state next party
  known : Compared (next.pc party)

theorem Counted.step [Fintype ι] (counted : Counted state) (moves : MovesFrom state next party pc)
    (settles : Settles state next party) : Counted next := by
  have rest (other : ι) (different : other ≠ party) : next.pc other = state.pc other := by
    obtain ⟨pc', moves⟩ := moves
    exact moves.rest different
  refine ⟨?_, fun other => ?_⟩
  · have others (other : ι) (different : other ≠ party) : share next other = share state other := by
      rw [share, share, rest other different, settles.others other different]
    have total := sum_exchange party others
    have balance := settles.balance
    have count := counted.count
    omega
  · by_cases self : other = party
    · subst self
      exact settles.known
    · rw [rest other self]
      exact counted.points other

/-! ### The steps -/

section Settles

variable {mode : Mode} {value : SignalValue}

theorem toldAt_of_ne (different : value ≠ .signaled) : toldAt pc value = 0 := if_neg different

theorem toldAt_of_free (free : waitsAt pc .signaled = false) : toldAt pc value = 0 := by
  rw [toldAt, free]
  split <;> rfl

/-- A point of a party that carries nothing and whose node is its own. -/
theorem shareAt_free (carries : carriesAt pc = 0) (free : waitsAt pc .signaled = false) :
    shareAt pc value = 0 := by
  rw [shareAt, carries, toldAt_of_free free]

theorem toldAt_congr (waits : waitsAt pc' .signaled = waitsAt pc .signaled) :
    toldAt pc' value = toldAt pc value := by
  rw [toldAt, waits, toldAt]

section

variable (source : state.pc party = pc) (target : next.pc = Function.update state.pc party pc')
include source target

/-- A step that writes no node. -/
theorem Settles.passes (signal : next.signal = state.signal)
    (consumed : next.consumed = state.consumed)
    (waits : waitsAt pc' .signaled = waitsAt pc .signaled)
    (balance : next.issued + settled state + carriesAt pc = state.issued + settled next + carriesAt
      pc')
    (known : Compared pc') : Settles state next party where
  others other _ := by rw [signal]
  balance := by
    have told : toldAt pc' (state.signal party).value = toldAt pc (state.signal party).value :=
      toldAt_congr waits
    rw [share, share, source, target, signal, Function.update_self, shareAt, shareAt]
    omega
  spends := .inl consumed
  known := by
    rw [target, Function.update_self]
    exact known

/-- A step on the party's own program point: nothing is issued or used up, and what is with the
party stays. -/
theorem Settles.goto (signal : next.signal = state.signal) (issued : next.issued = state.issued)
    (consumed : next.consumed = state.consumed) (merged : next.merged = state.merged)
    (permit : hasPermit next.word = hasPermit state.word) (carries : carriesAt pc' = carriesAt pc)
    (waits : waitsAt pc' .signaled = waitsAt pc .signaled) (known : Compared pc') :
    Settles state next party := by
  refine .passes source target signal consumed waits ?_ known
  rw [settled, settled, issued, consumed, merged, permit, carries]

/-- A step that writes the party's own node, of which nobody was told. -/
theorem Settles.write {node : Signal}
    (signal : next.signal = Function.update state.signal party node)
    (issued : next.issued = state.issued) (consumed : next.consumed = state.consumed)
    (merged : next.merged = state.merged) (permit : hasPermit next.word = hasPermit state.word)
    (carries : carriesAt pc' = carriesAt pc) (free : toldAt pc (state.signal party).value = 0)
    (after : toldAt pc' node.value = 0) (known : Compared pc') : Settles state next party where
  others other different := by rw [signal, Function.update_of_ne different]
  balance := by
    rw [share, share, settled, settled, source, target, signal, Function.update_self,
      Function.update_self, issued, consumed, merged, permit, shareAt, shareAt, carries, free,
      after]
  spends := .inl consumed
  known := by
    rw [target, Function.update_self]
    exact known

end

/-- The wait is over, and has used up `used`: the permit that the step has taken, or what the party
was told. -/
theorem completed_settles (used : Bool) {word : ℕ} {signals : ι → Signal}
    (source : state.pc party = pc) (carries : carriesAt pc = 0)
    (paid : used.toNat + (hasPermit word).toNat =
      (hasPermit state.word).toNat + toldAt pc (state.signal party).value)
    (spends : used = true → (hasPermit state.word = true ∧ hasPermit word = false) ∨
      toldAt pc (state.signal party).value = 1)
    (others : ∀ other, other ≠ party → (signals other).value = (state.signal other).value)
    (queue : WaitQueue ι) :
    Settles state
      (completed ({ state with signal := signals, word := word, queue := queue }.consume used)
      party mode) party := by
  cases mode with
  | wait =>
    refine ⟨others, ?_, ?_, by simp [completed, Compared]⟩
    · rw [share, share, source, shareAt, carries]
      have nothing : shareAt (.idle : Pc ι) (signals party).value = 0 := shareAt_free rfl rfl
      simp [completed, settled, nothing]
      omega
    · cases used with
      | false => exact .inl rfl
      | true =>
        rw [Spends, source]
        exact .inr ⟨rfl, spends rfl⟩
  | poll waker =>
    refine ⟨fun other different => ?_, ?_, ?_, by simp [completed, Compared]⟩
    · rw [← others other different]
      simp [completed, different]
    · rw [share, share, source, shareAt, carries]
      simp [completed, settled, shareAt, carriesAt, toldAt_of_ne]
      omega
    · cases used with
      | false => exact .inl rfl
      | true =>
        rw [Spends, source]
        exact .inr ⟨rfl, spends rfl⟩

theorem tryTrue_settles {attempt : Attempt} (used : Bool) {word : ℕ} (source : state.pc party = pc)
    (carries : carriesAt pc = 0) (free : waitsAt pc .signaled = false)
    (paid : used.toNat + (hasPermit word).toNat = (hasPermit state.word).toNat)
    (spends : used = true → hasPermit state.word = true ∧ hasPermit word = false) :
    Settles state (tryTrue ({ state with word := word }.consume used) party attempt) party := by
  have told : toldAt pc (state.signal party).value = 0 := toldAt_of_free free
  unfold tryTrue
  split <;> exact completed_settles used source carries (by rw [told]; exact paid)
    (fun uses => .inl (spends uses)) (fun _ _ => rfl) state.queue

/-- `try_complete` has read a word: a generation that has moved on uses up nothing. -/
theorem tryNext_settles {attempt : Attempt} {cur : ℕ} (source : state.pc party = pc)
    (carries : carriesAt pc = 0)
    (free : waitsAt pc .signaled = false) :
    Settles state (tryNext state party attempt cur) party := by
  have told : toldAt pc (state.signal party).value = 0 := toldAt_of_free free
  unfold tryNext
  split
  · exact tryTrue_settles false source carries free (Nat.zero_add _) never
  · split
    · exact .goto source rfl rfl rfl rfl rfl rfl carries.symm free.symm ‹_›
    · cases attempt with
      | wait => exact .write source rfl rfl rfl rfl rfl rfl carries.symm told rfl trivial
      | poll waker =>
        exact .goto source rfl rfl rfl rfl rfl rfl carries.symm free.symm trivial
      | pollSlow waker =>
        exact .write source rfl rfl rfl rfl rfl rfl carries.symm told rfl trivial

theorem tryCas_settles {attempt : Attempt} {cur : ℕ} (source : state.pc party = .tryCas attempt cur)
    (known : hasPermit cur = true) :
    Settles state (tryCas width state party attempt cur) party := by
  unfold tryCas
  split
  · rename_i same
    subst same
    exact tryTrue_settles true source rfl rfl (by simp [known]) fun _ =>
      ⟨known, clearPermit_hasPermit⟩
  · exact tryNext_settles source rfl rfl

theorem enqueueNext_settles {word : ℕ} (source : state.pc party = pc) (carries : carriesAt pc = 0)
    (free : waitsAt pc .signaled = false) (permit : hasPermit word = hasPermit state.word) :
    Settles state ({ state with word := word }.goto party (enqueueNext state party mode word))
      party := by
  unfold enqueueNext
  split
  · exact .goto source rfl rfl rfl rfl rfl permit carries.symm free.symm trivial
  · split
    · exact .goto source rfl rfl rfl rfl rfl permit carries.symm free.symm ‹_›
    · exact .goto source rfl rfl rfl rfl rfl permit carries.symm free.symm trivial

theorem enqueueCas_settles {cur : ℕ} (source : state.pc party = .enqueueCas mode cur)
    (known : hasPermit cur = true) :
    Settles state (enqueueCas width state party mode cur) party := by
  unfold enqueueCas
  split
  · rename_i same
    subst same
    have after : (({ state with word := clearPermit width state.word }.consume true).goto party
        (.unlock (.completed mode))).pc party = .unlock (.completed mode) := Function.update_self ..
    refine ⟨fun _ _ => rfl, ?_, .inr ⟨rfl, .inl ⟨known, clearPermit_hasPermit⟩⟩,
      by rw [after]; trivial⟩
    rw [share, share, source, after, shareAt_free rfl rfl, shareAt_free rfl rfl]
    simp [settled, known]
    omega
  · exact enqueueNext_settles source rfl rfl rfl

/-- The permit is stored by a new notification, or by one that is passed on. -/
theorem setPermit_settles {passed : Bool} (source : state.pc party = pc)
    (carries : carriesAt pc = passed.toNat)
    (free : waitsAt pc .signaled = false) (known : hasPermit state.word = false) :
    Settles state (({ state with word := setPermit state.word }.issue passed).goto party .idle)
      party := by
  refine .passes source rfl rfl rfl free.symm ?_ trivial
  rw [carries]
  cases passed <;> simp [settled, known, carriesAt] <;> omega

/-- A notification that is passed on becomes one with the stored permit. -/
theorem merge_settles {passed : Bool} (source : state.pc party = pc)
    (carries : carriesAt pc = passed.toNat)
    (free : waitsAt pc .signaled = false) :
    Settles state ((state.merge passed).goto party .idle) party := by
  refine .passes source rfl rfl rfl free.symm ?_ trivial
  rw [carries]
  simp [settled, carriesAt]
  omega

theorem notifyNext_settles {passed : Bool} {cur : ℕ} (source : state.pc party = pc)
    (carries : carriesAt pc = passed.toNat) (free : waitsAt pc .signaled = false) :
    Settles state (notifyNext state party passed cur) party := by
  unfold notifyNext
  split
  · exact .goto source rfl rfl rfl rfl rfl rfl carries.symm free.symm trivial
  · split
    · exact merge_settles source carries free
    · rename_i none
      exact .goto source rfl rfl rfl rfl rfl rfl carries.symm free.symm
        (Bool.eq_false_of_not_eq_true none)

/-- The pop of `notify_one`: a new notification is on its way, or the one that is passed on. -/
theorem notifyPop_settles {passed : Bool} (source : state.pc party = .notifyPop passed) :
    Settles state (notifyPop state party passed) party := by
  unfold notifyPop
  split
  · exact .goto source rfl rfl rfl rfl rfl rfl rfl rfl trivial
  · refine .passes source rfl rfl rfl rfl ?_ trivial
    cases passed
    · simp [settled, carriesAt]
      omega
    · rfl

theorem signalNext_settles {all : Bool} {chain : List ι} (source : state.pc party = pc)
    (same : before = { state with queue := before.queue })
    (carries : carriesAt pc = if all then 0 else chain.length)
      (free : waitsAt pc .signaled = false) :
    Settles state (signalNext before party all chain) party := by
  rw [same]
  cases chain with
  | nil =>
    refine .goto source rfl rfl rfl rfl rfl rfl ?_ free.symm trivial
    rw [carries]
    cases all <;> rfl
  | cons node rest =>
    refine .goto source rfl rfl rfl rfl rfl rfl ?_ free.symm trivial
    rw [carries]
    cases all <;> rfl

/-- The unlock leaves every notification where it is. -/
theorem unlocked_settles {back : Unlock ι} (place : state.pc party = .unlock back ∨
      state.pc party = .unlockStore back) :
    Settles state (unlocked { state with queue := state.queue.unlock } party back) party := by
  have point : ∃ pc, state.pc party = pc ∧ carriesAt pc = carriesAt (.unlock back) ∧
      waitsAt pc .signaled = back.waits .signaled := by
    rcases place with source | source
    · exact ⟨_, source, rfl, rfl⟩
    · refine ⟨_, source, ?_, rfl⟩
      cases back <;> first | rfl | skip
      rename_i passed node
      cases node <;> rfl
  obtain ⟨pc, source, carries, waits⟩ := point
  clear place
  unfold unlocked
  split
  · refine completed_settles false source carries ?_ never (fun _ _ => rfl) state.queue.unlock
    rw [toldAt_of_free waits, Bool.toNat_false, Nat.zero_add, Nat.add_zero]
  · exact .goto source rfl rfl rfl rfl rfl rfl carries.symm waits.symm trivial
  · exact .goto source rfl rfl rfl rfl rfl rfl carries.symm waits.symm trivial
  · exact .goto source rfl rfl rfl rfl rfl rfl carries.symm waits.symm trivial
  · exact .goto source rfl rfl rfl rfl rfl rfl carries.symm waits.symm trivial
  · exact signalNext_settles source rfl carries waits
  · exact .goto source rfl rfl rfl rfl rfl rfl carries.symm waits.symm trivial
  · exact .goto source rfl rfl rfl rfl rfl rfl carries.symm waits.symm trivial

theorem unlock_settles {back : Unlock ι} (source : state.pc party = .unlock back) :
    Settles state (unlock width state party back) party := by
  unfold unlock
  split
  · refine .goto source rfl rfl rfl rfl rfl clearQueue_hasPermit ?_ rfl trivial
    cases back <;> first | rfl | skip
    rename_i passed node
    cases node <;> rfl
  · exact unlocked_settles (.inl source)

section

variable (source : state.pc party = pc) (carries : carriesAt pc = 0)
  (waits : waitsAt pc .signaled = true)
include source carries waits

/-- A wait ends with the value that was read. -/
theorem final_settles {signals : ι → Signal}
    (others : ∀ other, other ≠ party → (signals other).value = (state.signal other).value) :
    Settles state (completed (State.consume { state with signal := signals }
      (decide ((state.signal party).value = .signaled))) party mode) party := by
  have told : toldAt pc (state.signal party).value =
      (decide ((state.signal party).value = .signaled)).toNat := by
    rw [toldAt, waits]
    by_cases isTold : (state.signal party).value = .signaled
    · rw [if_pos isTold, decide_eq_true isTold]
    · rw [if_neg isTold, decide_eq_false isTold, Bool.toNat_false]
  refine completed_settles _ source carries (by rw [told, Nat.add_comm]) (fun uses => .inr ?_)
    others state.queue
  rw [told, uses, Bool.toNat_true]

theorem pollFinal_settles {waker : Waker} :
    Settles state (pollFinal state party waker (state.signal party).value) party := by
  unfold pollFinal
  split
  · rename_i returned
    refine ⟨fun _ _ => rfl, ?_, .inl rfl, by simp [Compared]⟩
    rw [share, share, source, shareAt, shareAt, carries, toldAt_of_ne (by rw [returned]; rintro ⟨⟩)]
    simp [settled, carriesAt, toldAt, returned]
  · exact final_settles source carries waits fun _ _ => rfl

/-- A dropped future passes on what it was told and has not used. -/
theorem passOn_settles : Settles state (passOn state party (state.signal party).value) party := by
  unfold passOn
  split
  · rename_i told
    refine ⟨fun _ _ => rfl, ?_, .inl rfl, by simp [Compared]⟩
    rw [share, share, source, shareAt, shareAt, carries, toldAt, if_pos told, waits]
    simp [settled, carriesAt, toldAt, waitsAt]
  · rename_i untold
    refine ⟨fun _ _ => rfl, ?_, .inl rfl, by simp [Compared]⟩
    rw [share, share, source, shareAt, shareAt, carries, toldAt_of_ne untold]
    simp [settled, carriesAt, toldAt_of_ne untold]

end

end Settles

/-! ### The signal -/

theorem signalPc_share {all : Bool} {chain : List ι} {value : SignalValue} :
    shareAt (signalPc all chain) value = if all then 0 else chain.length := by
  rw [shareAt, toldAt_of_free signalPc_waits]
  cases chain <;> cases all <;> rfl

theorem signalPc_compared {all : Bool} {chain : List ι} : Compared (signalPc all chain) := by
  cases chain <;> trivial

/-- **A waiter that is told has what was on its way to it.** -/
theorem signalPublish_counted [Fintype ι] {node : ι} {rest : List ι} {all : Bool}
    (counted : Counted state)
    (waiting : Waiting state) (source : state.pc party = .signalPublish node rest all) :
    Counted (signalPublish state party node rest all) := by
  have point : state.waiters.pc party = .signalPublish node rest all := source
  obtain ⟨apart, waits, unsignalled, -⟩ := waiting.publishes point rfl
  have waiters : (signalPublish state party node rest all).waiters = _ := signalNext_waiters
  have signal : (signalPublish state party node rest all).signal = Function.update state.signal node
      ((state.signal node).setValue (signalValue all)) := congrArg Waiters.signal waiters
  have pcs : (signalPublish state party node rest all).pc = Function.update state.pc party
      (signalPc all rest) :=
    congrArg Waiters.pc waiters
  have fields : (signalPublish state party node rest all).issued = state.issued ∧
      settled (signalPublish state party node rest all) = settled state := by
    cases rest <;> exact ⟨rfl, rfl⟩
  have untold : (state.signal node).value ≠ .signaled := by
    intro told
    have unsignalled : (state.signal node).value.isFinal = false := unsignalled
    rw [told] at unsignalled
    cases unsignalled
  -- the signaler gives up one notification for each node, which the node gets unless `all` is set
  have gives : share state party =
      (if all then 0 else 1) + share (signalPublish state party node rest all) party := by
    rw [share, share, source, pcs, Function.update_self, signalPc_share, shareAt,
      toldAt_of_free rfl]
    cases all
    · exact Nat.add_comm rest.length 1
    · rfl
  have gets : share (signalPublish state party node rest all) node =
      (if all then 0 else 1) + share state node := by
    have given : waitsAt (state.pc node) .signaled = true := discipline.signalledWaits waits rfl
    rw [share, share, pcs, signal, Function.update_self, Function.update_of_ne apart, shareAt,
      shareAt, toldAt_of_ne untold, Signal.setValue_value]
    cases all with
    | false =>
      rw [toldAt, given]
      exact Nat.add_comm _ 1
    | true =>
      rw [toldAt_of_ne (show signalValue true ≠ .signaled by decide)]
      exact Nat.add_comm _ 0
  have others (other : ι) (notNode : other ≠ node) (notParty : other ≠ party) :
      share (signalPublish state party node rest all) other = share state other := by
    rw [share, share, pcs, signal, Function.update_of_ne notNode, Function.update_of_ne notParty]
  have total := sum_exchange_two apart others
  refine ⟨?_, fun other => ?_⟩
  · have count := counted.count
    rw [fields.1, fields.2]
    omega
  · rw [pcs]
    by_cases self : other = party
    · subst self
      rw [Function.update_self]
      exact signalPc_compared
    · rw [Function.update_of_ne self]
      exact counted.points other

/-! ### The machine -/

/-- The party is about to publish a signal. -/
def publishesAt : Pc ι → Bool
  | .signalPublish _ _ _ => true
  | _ => false

/-- **Every step inside a call but the signal itself settles.** -/
theorem advance_settles (waiting : Waiting state) (known : Compared (state.pc party))
    (quiet : publishesAt (state.pc party) = false)
    (stepped : advance width state party = some next) : Settles state next party := by
  cases source : state.pc party <;> rw [source] at known quiet <;>
    simp only [advance, source, Option.some.injEq, reduceCtorEq] at stepped
  case enqueueLock =>
    unfold enqueueLock at stepped
    split at stepped <;> cases stepped
    exact .goto source rfl rfl rfl rfl rfl rfl rfl rfl trivial
  case notifyLock =>
    unfold notifyLock at stepped
    split at stepped <;> cases stepped <;>
      exact .goto source rfl rfl rfl rfl rfl rfl rfl rfl trivial
  case broadcastLock =>
    unfold broadcastLock at stepped
    split at stepped <;> cases stepped <;>
      exact .goto source rfl rfl rfl rfl rfl rfl rfl rfl trivial
  case cancelLock =>
    unfold cancelLock at stepped
    split at stepped <;> cases stepped <;>
      exact .goto source rfl rfl rfl rfl rfl rfl rfl rfl trivial
  case waitPark =>
    unfold waitPark at stepped
    dsimp only at stepped
    split at stepped <;> cases stepped
    exact final_settles source rfl rfl fun _ _ => rfl
  case cancelWait =>
    unfold cancelWait at stepped
    dsimp only at stepped
    split at stepped <;> cases stepped
    exact passOn_settles source rfl rfl
  all_goals subst stepped
  case tryLoad => exact tryNext_settles source rfl rfl
  case tryCas => exact tryCas_settles source known
  case enqueueFlag => exact enqueueNext_settles source rfl rfl setQueue_hasPermit
  case enqueueCas => exact enqueueCas_settles source known
  case enqueuePush mode =>
    have own : (state.signal party).value = armedValue mode :=
      waiting.owned party _ (congrArg ownValue source)
    refine .write source rfl rfl rfl rfl rfl rfl rfl (toldAt_of_free rfl) ?_ trivial
    rw [Signal.setAux_value, own]
    cases mode <;> rfl
  case notifyLoad passed =>
    unfold notifyLoad
    split
    · exact .goto source rfl rfl rfl rfl rfl rfl rfl rfl trivial
    · split
      · exact merge_settles source rfl rfl
      · rename_i none
        exact .goto source rfl rfl rfl rfl rfl rfl rfl rfl (Bool.eq_false_of_not_eq_true none)
  case notifyCas passed cur =>
    unfold notifyCas
    split
    · rename_i same
      subst same
      exact setPermit_settles source rfl rfl known
    · exact .goto source rfl rfl rfl rfl rfl rfl rfl rfl trivial
  case notifySlow => exact notifyNext_settles source rfl rfl
  case notifyPop => exact notifyPop_settles source
  case notifySlowCas passed cur =>
    unfold notifySlowCas
    split
    · rename_i same
      subst same
      exact setPermit_settles source rfl rfl known
    · exact notifyNext_settles source rfl rfl
  case broadcastAdd =>
    unfold broadcastAdd
    split <;> exact .goto source rfl rfl rfl rfl rfl addGeneration_hasPermit rfl rfl trivial
  case broadcastLoad => exact .goto source rfl rfl rfl rfl rfl rfl rfl rfl trivial
  case broadcastDrain => exact .goto source rfl rfl rfl rfl rfl rfl rfl rfl trivial
  case unlock => exact unlock_settles source
  case unlockStore => exact unlocked_settles (.inr source)
  case signalTake node rest all =>
    have same (other : ι) : ((signalTake state party node rest all).signal other).value =
        (state.signal other).value := by
      by_cases isNode : other = node
      · subst isNode
        simp [signalTake]
      · simp [signalTake, isNode]
    refine ⟨fun other _ => same other, ?_, .inl rfl, by simp [signalTake, Compared]⟩
    rw [share, share, same, source]
    simp only [signalTake, State.goto, Function.update_self]
    cases all <;> rfl
  case signalPublish => cases quiet
  case waitSwap =>
    have others (other : ι) (different : other ≠ party) :
        (Function.update state.signal party ((state.signal party).setValue .initWaiting)
        other).value = (state.signal other).value := by rw [Function.update_of_ne different]
    unfold waitSwap
    dsimp only
    split
    · exact final_settles source rfl rfl others
    · rename_i unsignalled
      refine .write source rfl rfl rfl rfl rfl rfl rfl (toldAt_of_ne ?_) rfl trivial
      exact fun told => unsignalled (congrArg SignalValue.isFinal told)
  case rearmRegister waker =>
    have same (other : ι) :
        ((state.setSignal party ((state.signal party).register waker)).signal other).value =
        (state.signal other).value := by
      by_cases self : other = party
      · subst self
        simp
      · simp [self]
    unfold rearmRegister
    dsimp only
    split
    · refine ⟨fun other _ => same other, ?_, .inl rfl, by simp [Compared]⟩
      rw [share, share, source]
      simp [settled, shareAt, carriesAt, toldAt, waitsAt]
    · refine ⟨fun other _ => same other, ?_, .inl rfl, by simp [Compared]⟩
      rw [share, share, source]
      simp [settled, shareAt, carriesAt, toldAt, waitsAt]
  case rearmLoad =>
    unfold rearmLoad
    dsimp only
    split
    · exact pollFinal_settles source rfl rfl
    · exact .goto source rfl rfl rfl rfl rfl rfl rfl rfl trivial
  case cancelRemove =>
    unfold cancelRemove
    split
    · rename_i linked
      have unsignalled : (state.signal party).value.isFinal = false := (waiting.queued linked).2
      have untold : (state.signal party).value ≠ .signaled := fun told => by
        rw [told] at unsignalled
        cases unsignalled
      refine ⟨fun _ _ => rfl, ?_, .inl rfl, by simp [Compared]⟩
      rw [share, share, source, shareAt, toldAt_of_ne untold]
      simp [settled, shareAt, carriesAt, toldAt_of_ne untold]
    · exact .goto source rfl rfl rfl rfl rfl rfl rfl rfl trivial

theorem begin_settles {move : Move} (stepped : begin state party move = some next) :
    Settles state next party := by
  cases move <;> simp only [begin] at stepped
  case advance => cases stepped
  case create =>
    split at stepped <;> cases stepped
    rename_i source
    exact .write source rfl rfl rfl rfl rfl rfl rfl (toldAt_of_free rfl) rfl trivial
  case poll waker =>
    split at stepped <;> cases stepped
    rename_i source
    unfold poll
    dsimp only
    split
    · rename_i fresh
      refine ⟨fun _ _ => rfl, ?_, .inl rfl, by simp [Compared]⟩
      rw [share, share, source]
      simp [settled, shareAt, carriesAt, fresh, toldAt_of_ne]
    · split
      · exact .goto source rfl rfl rfl rfl rfl rfl rfl rfl trivial
      · exact pollFinal_settles source rfl rfl
  case drop =>
    split at stepped <;> cases stepped
    rename_i source
    have rest : carriesAt (.future : Pc ι) = 0 := rfl
    have leaves {pc : Pc ι} (carries : carriesAt pc = 0)
        (untold : (state.signal party).value ≠ .signaled)
        (known : Compared pc) : Settles state (state.goto party pc) party := by
      refine ⟨fun _ _ => rfl, ?_, .inl rfl, by simpa using known⟩
      rw [share, share, source]
      simp [settled, shareAt, carries, toldAt_of_ne untold, rest]
    unfold drop
    split
    case h_1 value | h_2 value => exact leaves rfl (by rw [value]; rintro ⟨⟩) trivial
    case h_3 value => exact leaves rfl (by rw [value]; rintro ⟨⟩) trivial
    case h_4 => exact passOn_settles source rfl rfl
  all_goals
    split at stepped <;> cases stepped
    rename_i source
    exact .goto source rfl rfl rfl rfl rfl rfl rfl rfl trivial

/-- **The notifications are counted in every reachable state**, under any condition on the steps. -/
theorem counted_of_reachable [Fintype ι] {allowed : State ι → Label ι → State ι → Prop}
    (reach : (machine ι width).ReachableBy allowed state) : Counted state := by
  refine reach.invariant Counted ?_ ?_
  · rintro _ rfl
    refine ⟨?_, fun _ => trivial⟩
    have none (party : ι) : share (start : State ι) party = 0 := rfl
    have clear : hasPermit 0 = false := by decide
    simp only [none, Finset.sum_const_zero]
    show 0 = 0 + 0 + (hasPermit 0).toNat + 0
    rw [clear]
    rfl
  · intro state label next reach counted stepped _
    have waiting := waiting_of_reachable reach
    have stepped : step width state label = some next := stepped
    unfold step at stepped
    split at stepped
    · cases publishes : publishesAt (state.pc label.1) with
      | false =>
        exact counted.step (advance_moves waiting stepped)
          (advance_settles waiting (counted.points label.1) publishes stepped)
      | true =>
        cases source : state.pc label.1 <;> rw [source] at publishes <;> cases publishes
        simp only [advance, source, Option.some.injEq] at stepped
        subst stepped
        exact signalPublish_counted counted waiting source
    · exact counted.step (begin_moves stepped) (begin_settles stepped)

/-- **What a step uses up**, in every state of every run. -/
theorem step_spends [Fintype ι] {label : Label ι} (reach : (machine ι width).Reachable state)
    (stepped : step width state label = some next) : Spends state next label.1 := by
  have waiting := waiting_of_reachable reach
  have counted := counted_of_reachable reach
  unfold step at stepped
  split at stepped
  · cases publishes : publishesAt (state.pc label.1) with
    | false => exact (advance_settles waiting (counted.points label.1) publishes stepped).spends
    | true =>
      cases source : state.pc label.1 <;> rw [source] at publishes <;> cases publishes
      rename_i node rest all
      simp only [advance, source, Option.some.injEq] at stepped
      subst stepped
      cases rest <;> exact .inl rfl
  · exact (begin_settles stepped).spends

/-- **Notifications are neither lost nor duplicated**: in every state of every run those that were
issued, without those that became one with a stored permit, are the stored permit, those with a
party and those that ended a wait; and a wait that ends uses one up only if it takes the permit or
reads `SIGNAL_SIGNALED`. -/
theorem notifications_conserved [Fintype ι] (reach : (machine ι width).Reachable state) :
    state.issued = state.merged + ((hasPermit state.word).toNat + ∑ party,
      share state party + state.consumed) ∧
      ∀ label next, step width state label = some next → Spends state next label.1 := by
  refine ⟨?_, fun _ _ stepped => step_spends reach stepped⟩
  have count := (counted_of_reachable reach).count
  rw [settled] at count
  omega

/-- `a` waits and is picked by `c`, and its future is dropped; the notification goes to `b`, which
waits as well and has not looked yet, while `c` stores another one. -/
def passedOn {ι : Type} (a b c : ι) : List (Label ι) :=
  List.flatten [[(a, .create), (a, .poll 0)], List.replicate 6 (a, .advance),
    [(b, .create), (b, .poll 1)], List.replicate 6 (b, .advance), [(c, .notifyOne)],
    List.replicate 7 (c, .advance), [(a, .drop)], List.replicate 8 (a, .advance),
    [(c, .notifyOne), (c, .advance), (c, .advance)]]

/-- Two notifications were issued: one is stored, and one is with `1`. -/
theorem notifications_conserved_passedOn : ∃ state :
    State (Fin 3), (machine (Fin 3) .bits64).Reachable state ∧
    state.issued = 2 ∧ hasPermit state.word = true ∧ share state 1 = 1 ∧
    state.issued = state.merged + ((hasPermit state.word).toNat + ∑ party,
      share state party + state.consumed) := by
  obtain ⟨state, reach, ended⟩ := System.exists_reachable_of_run (machine (Fin 3) .bits64)
    (fun state => decide (state.issued = 2 ∧ hasPermit state.word = true ∧ share state 1 = 1)) rfl
    (passedOn 0 1 2) (by decide +kernel)
  obtain ⟨issued, stored, told⟩ := of_decide_eq_true ended
  exact ⟨state, reach, issued, stored, told, (notifications_conserved reach).1⟩

end Xutex.Notify
