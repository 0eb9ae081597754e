/-
**Where the permits of a semaphore are.**

A permit is in the pool word, in the hands of a running drain, with a waiter that was served, in a
live `SemaphorePermit`, on its way inside a call, or it was forgotten. `share` is what a party holds
of them:

* `drainedAt` — what its drain has taken out of the pool;
* `transitAt` — what its call is about to return or to give out;
* `servedAt` — what its node was served, `n - aux`, from the push until the signal has been read.

`Ledger` is the invariant: the permits add up to those that were created (`count`), a waiter was
never served more than it asked for (`known`), and a node that is to be told it has its permits has
them all (`drained`). `Ledger.step` derives it from what one step does to the shares (`Passes`).
-/

import Xutex.Concurrency.Parties
import Xutex.Semaphore.Waiting

set_option linter.unusedSectionVars false

namespace Xutex.Semaphore

open Concurrency Discipline
open scoped BigOperators

variable {ι γ : Type} [DecidableEq ι] [DecidableEq γ]

/-! ### The accounts -/

/-- The permits of the live `SemaphorePermit`s. -/
def heldPermits (held : List (Permit γ)) : ℕ := (held.map Permit.permits).sum

/-- The permits of the read guard that a downgrade is to return. -/
def After.permits : After γ → ℕ
  | .grant permit => permit.permits
  | .done | .closedWait | .closedPoll => 0

/-- The permits that are on their way through an `unlock`, in a call that asks for `n`. -/
def Unlock.permits (n : ℕ) : Unlock ι γ → ℕ
  | .acquired _ => n
  | .cancelFound granted _ => granted
  | .drained _ after => after.permits
  | .closed _ | .enqueued _ _ | .closing _ | .cancelMissing => 0

/-- The permits a running drain has taken out of the pool. -/
def drainedAt : Pc ι γ → ℕ
  | .drainServe _ available | .drainReturn _ available _ => available
  | _ => 0

/-- The permits in transit inside a call that asks for `n`. -/
def transitAt (n : ℕ) : Pc ι γ → ℕ
  | .releaseAdd released after => released + after.permits
  | .drainLock after | .drainLoad after | .drainCas after _ => after.permits
  | .drainServe after _ | .drainReturn after _ _ => after.permits
  | .unlock back | .unlockStore back => back.permits n
  | .signalTake _ _ _ after | .signalPublish _ _ _ after => after.permits
  | _ => 0

/-- The permits a node that is queued, popped, or signalled and not consumed was served. -/
def servedAt (n : ℕ) (node : Signal) (pc : Pc ι γ) : ℕ :=
  if waitsAt pc node.value then n - node.aux else 0

/-- What a party at `pc` holds. -/
def shareAt (n : ℕ) (node : Signal) (pc : Pc ι γ) :
    ℕ := drainedAt pc + transitAt n pc + servedAt n node pc

def share (state : State ι γ) (party : ι) : ℕ :=
  shareAt (state.requested party) (state.signal party) (state.pc party)

/-- What no party holds. -/
def stock (state : State ι γ) : ℕ := permits state.pool + heldPermits state.held + state.forgotten

/-! ### What the program points know -/

/-- The party has armed its node and not linked it. -/
def armedAt : Pc ι γ → Bool
  | .enqueueLock _ | .enqueueFlag _ | .enqueueCas _ _ | .enqueuePush _ => true
  | _ => false

/-- The word from which the party is about to take what it asks for. -/
def takesAt : Pc ι γ → Option ℕ
  | .tryCas _ cur | .enqueueCas _ cur => some cur
  | _ => none

/-- The nodes a drain has popped and not signalled. -/
def drainChain : Pc ι γ → List ι
  | .drainReturn _ _ chain => chain
  | .unlock (.drained chain _) | .unlockStore (.drained chain _) => chain
  | .signalTake node rest false _ | .signalPublish node rest false _ => node :: rest
  | _ => []

theorem chainOf_of_drainChain {pc : Pc ι γ} {node : ι} (member : node ∈ drainChain pc) :
    node ∈ chainOf pc := by
  unfold drainChain at member
  split at member
  all_goals first
    | exact member
    | cases member

/-- **What is known of a party at `pc`** that asks for `n` permits. -/
structure Known (width : PointerWidth) (n : ℕ) (node : Signal) (pc : Pc ι γ) : Prop where
  request : n ≤ maxPermits width
  served : waitsAt pc node.value = true → node.aux ≤ n
  whole : waitsAt pc node.value = true → node.value = .signaled → node.aux = 0
  armed : armedAt pc = true → node.aux = n
  takes : ∀ cur, takesAt pc = some cur → n ≤ permits cur

section Known

variable {width : PointerWidth} {n : ℕ} {node : Signal} {pc pc' : Pc ι γ}

/-- A party that has not given its node away and takes nothing knows nothing. -/
theorem Known.free (request : n ≤ maxPermits width) (waits : waitsAt pc' node.value = false)
    (armed : armedAt pc' = false) (takes : takesAt pc' = none) : Known width n node pc' where
  request := request
  served given := by simp [waits] at given
  whole given := by simp [waits] at given
  armed isArmed := by simp [armed] at isArmed
  takes cur isTaken := by simp [takes] at isTaken

/-- A party that goes on and keeps its node where it is. -/
theorem Known.goto (known : Known width n node pc)
    (waits : waitsAt pc' node.value = waitsAt pc node.value) (armed : armedAt pc' = false)
    (takes : takesAt pc' = none) : Known width n node pc' where
  request := known.request
  served given := known.served (waits ▸ given)
  whole given := known.whole (waits ▸ given)
  armed isArmed := by simp [armed] at isArmed
  takes cur isTaken := by simp [takes] at isTaken

/-- A party with an armed node goes on. -/
theorem Known.arm (request : n ≤ maxPermits width) (waits : waitsAt pc' node.value = false)
    (aux : node.aux = n) (takes : ∀ cur, takesAt pc' = some cur → n ≤ permits cur) :
    Known width n node pc' where
  request := request
  served given := by simp [waits] at given
  whole given := by simp [waits] at given
  armed _ := aux
  takes := takes

end Known

/-! ### What a drain serves -/

section Serve

theorem aux_setAux (signal : ι → Signal) (front : ι) (aux : ℕ) (node : ι) :
    (Function.update signal front ((signal front).setAux aux) node).aux =
      if node = front then aux else (signal node).aux := by
  by_cases same : node = front
  · subst same
    simp
  · simp [same]

section

variable (entries : List ι) (signal : ι → Signal) (available : ℕ)
include entries signal available

/-- A drain only serves: no `aux` word grows. -/
theorem serve_aux_le (node : ι) :
    ((serve entries signal available).signal node).aux ≤ (signal node).aux := by
  induction entries generalizing signal available with
  | nil => exact le_rfl
  | cons front rest unserved =>
    simp only [serve]
    split
    · split
      · rw [aux_setAux]
        split
        · rename_i same
          rw [same]
          exact Nat.sub_le _ _
        · exact le_rfl
      · exact le_rfl
    · refine (unserved _ _).trans ?_
      rw [aux_setAux]
      split
      · exact Nat.zero_le _
      · exact le_rfl

/-- A node that is not linked is not served. -/
theorem serve_aux_other {node : ι} (apart : node ∉ entries) :
    ((serve entries signal available).signal node).aux = (signal node).aux := by
  induction entries generalizing signal available with
  | nil => rfl
  | cons front rest unserved =>
    have different : node ≠ front := List.ne_of_not_mem_cons apart
    have others : node ∉ rest := List.not_mem_of_not_mem_cons apart
    simp only [serve]
    split
    · split
      · rw [aux_setAux, if_neg different]
      · rfl
    · rw [unserved _ _ others, aux_setAux, if_neg different]

/-- A popped node has all it asked for. -/
theorem serve_popped {node : ι} (member : node ∈ (serve entries signal available).chain) :
    ((serve entries signal available).signal node).aux = 0 := by
  induction entries generalizing signal available with
  | nil => cases member
  | cons front rest unserved =>
    simp only [serve] at member ⊢
    split at member
    · split at member <;> cases member
    · rename_i enough
      rw [if_neg enough]
      rcases List.mem_cons.mp member with rfl | later
      · have least := serve_aux_le rest (Function.update signal node ((signal node).setAux 0))
          (available - (signal node).aux) node
        rw [aux_setAux, if_pos rfl] at least
        exact Nat.le_zero.mp least
      · exact unserved _ _ later

/-- A drain stops at a front node that still misses permits, and has none left then. -/
theorem serve_rest {front : ι} {rest : List ι}
    (linked : (serve entries signal available).rest = front :: rest) :
    (serve entries signal available).available = 0 ∧
      0 < ((serve entries signal available).signal front).aux := by
  induction entries generalizing signal available with
  | nil => cases linked
  | cons first others unserved =>
    simp only [serve] at linked ⊢
    split
    · rename_i few
      rw [if_pos few] at linked
      split
      · rename_i some
        rw [if_pos some] at linked
        obtain rfl : first = front := (List.cons.inj linked).1
        rw [aux_setAux, if_pos rfl]
        exact ⟨rfl, Nat.sub_pos_of_lt few⟩
      · rename_i none
        rw [if_neg none] at linked
        obtain rfl : first = front := (List.cons.inj linked).1
        exact ⟨Nat.eq_zero_of_not_pos none, Nat.zero_lt_of_lt few⟩
    · rename_i enough
      rw [if_neg enough] at linked
      exact unserved _ _ linked

/-- The nodes behind the one a drain stops at are not served. -/
theorem serve_tail (distinct : entries.Nodup) {node : ι}
    (member : node ∈ (serve entries signal available).rest.tail) :
    ((serve entries signal available).signal node).aux = (signal node).aux := by
  induction entries generalizing signal available with
  | nil => rfl
  | cons front rest unserved =>
    obtain ⟨apart, distinctRest⟩ := List.nodup_cons.mp distinct
    have other (later : node ∈ rest) : node ≠ front := by
      rintro rfl
      exact apart later
    simp only [serve] at member ⊢
    split
    · rename_i few
      rw [if_pos few] at member
      split
      · rename_i some
        rw [if_pos some] at member
        rw [aux_setAux, if_neg (other member)]
      · rfl
    · rename_i enough
      rw [if_neg enough] at member
      have later : node ∈ rest := by
        rw [serve_entries rest (Function.update signal front ((signal front).setAux 0))
          (available - (signal front).aux)]
        exact List.mem_append_right _ (List.mem_of_mem_tail member)
      rw [unserved _ _ distinctRest member, aux_setAux, if_neg (other later)]

end

/-- **The loop of a drain moves permits from its hand to the nodes.** -/
theorem serve_count [Fintype ι] (requested : ι → ℕ) (waits : ι → Bool) (entries : List ι)
    (signal : ι → Signal) (available : ℕ) (given : ∀ node ∈ entries, waits node = true)
    (bound : ∀ node ∈ entries, (signal node).aux ≤ requested node) :
    (∑ i, if waits i then requested i - ((serve entries signal available).signal i).aux else 0) +
        (serve entries signal available).available =
      (∑ i, if waits i then requested i - (signal i).aux else 0) + available := by
  induction entries generalizing signal available with
  | nil => rfl
  | cons front rest unserved =>
    have waiting := given front List.mem_cons_self
    have small := bound front List.mem_cons_self
    -- serving the front changes the share of the front only
    have exchange (aux : ℕ) :
        (∑ i, if waits i then requested i -
            (Function.update signal front ((signal front).setAux aux) i).aux else 0) +
            (requested front - (signal front).aux) =
          (∑ i, if waits i then requested i - (signal i).aux else 0) + (requested front - aux) := by
      have others : ∀ other, other ≠ front →
          (if waits other then requested other -
            (Function.update signal front ((signal front).setAux aux) other).aux else 0) =
          if waits other then requested other - (signal other).aux else 0 := by
        intro other different
        rw [aux_setAux, if_neg different]
      have moved := sum_exchange front others
      simpa only [waiting, if_true, aux_setAux, if_pos] using moved
    simp only [serve]
    split
    · rename_i few
      split
      · have moved := exchange ((signal front).aux - available)
        dsimp only
        omega
      · rfl
    · rename_i enough
      have moved := exchange 0
      have later := unserved (Function.update signal front ((signal front).setAux 0))
        (available - (signal front).aux)
        (fun node member => given node (List.mem_cons_of_mem _ member)) (fun node member => by
          rw [aux_setAux]
          split
          · exact Nat.zero_le _
          · exact bound node (List.mem_cons_of_mem _ member))
      dsimp only
      omega

end Serve

/-! ### The invariant -/

section Ledger

variable [Fintype ι]

/-- **The books of the semaphore.** -/
structure Ledger (width : PointerWidth) (state : State ι γ) : Prop where
  waiting : Waiting state
  known : ∀ party, Known width (state.requested party) (state.signal party) (state.pc party)
  drained : ∀ party, ∀ node ∈ drainChain (state.pc party), (state.signal node).aux = 0
  count : stock state + ∑ party, share state party = state.created

variable {width : PointerWidth} {state next : State ι γ} {party : ι} {pc pc' : Pc ι γ}

/-- What a party holds and what is in the pool were created and not forgotten. -/
theorem Ledger.room (ledger : Ledger width state) (party : ι) :
    permits state.pool + share state party + state.forgotten ≤ state.created := by
  have held := share_le_sum (share state) party
  have count := ledger.count
  unfold stock at count
  omega

/-- **What one step of `party` does to the books**: it turns permits of its own share into others,
serves nobody, and tells only those that they have their permits that have them. -/
structure Passes (width : PointerWidth) (state next : State ι γ) (party : ι) : Prop where
  request : ∀ other, other ≠ party → next.request other = state.request other
  asks : next.request party = state.request party ∨
    waitsAt (state.pc party) (state.signal party).value = false
  aux : ∀ other, other ≠ party → (next.signal other).aux = (state.signal other).aux
  signalled : ∀ other, other ≠ party → (next.signal other).value = .signaled →
    (state.signal other).value = .signaled ∨ (state.signal other).aux = 0
  own : (next.signal party).aux = (state.signal party).aux ∨
    waitsAt (state.pc party) (state.signal party).value = false
  chain : ∀ node ∈ drainChain (next.pc party), node ∈ drainChain (state.pc party)
  known : Known width (next.requested party) (next.signal party) (next.pc party)
  balance : stock next + share next party + state.created =
    stock state + share state party + next.created

/-- The wait of another party goes on. -/
theorem waits_other (waiting : Waiting state)
    (moves : discipline.Moves state.waiters next.waiters party pc pc') {other : ι}
    (different : other ≠ party) :
    waitsAt (next.pc other) (next.signal other).value =
      waitsAt (state.pc other) (state.signal other).value := by
  rcases waiting.value_other moves different with same | ⟨before, after, -⟩
  · have value : (next.signal other).value = (state.signal other).value := same
    have rest : next.pc other = state.pc other := moves.rest different
    rw [value, rest]
  · exact Eq.trans after (Eq.symm before)

theorem share_other (waiting : Waiting state)
    (moves : discipline.Moves state.waiters next.waiters party pc pc') {other : ι}
    (different : other ≠ party) (request : next.request other = state.request other)
    (aux : (next.signal other).aux = (state.signal other).aux) :
    share next other = share state other := by
  have rest : next.pc other = state.pc other := moves.rest different
  have waits := waits_other waiting moves different
  rw [rest] at waits
  rw [share, share, shareAt, shareAt, servedAt, servedAt, rest, waits, aux, State.requested,
    request]

/-- A step of `Passes` leaves the nodes that are given away as they are. -/
theorem Passes.given (passes : Passes width state next party) {node : ι}
    (waits : waitsAt (state.pc node) (state.signal node).value = true) :
    (next.signal node).aux = (state.signal node).aux ∧ next.request node = state.request node := by
  by_cases self : node = party
  · subst self
    refine ⟨passes.own.resolve_right ?_, passes.asks.resolve_right ?_⟩
    · simp [waits]
    · simp [waits]
  · exact ⟨passes.aux node self, passes.request node self⟩

/-- **One step keeps the books.** -/
theorem Ledger.step (ledger : Ledger width state) (moves : MovesFrom state next party pc)
    (passes : Passes width state next party) : Ledger width next := by
  obtain ⟨pc', moves⟩ := moves
  have popped (signaler node : ι) (member : node ∈ drainChain (state.pc signaler)) :
      (next.signal node).aux = 0 := by
    obtain ⟨waits, -⟩ := ledger.waiting.popped (chainOf_of_drainChain member)
    rw [(passes.given waits).1, ledger.drained signaler node member]
  refine ⟨ledger.waiting.step moves, fun other => ?_, fun signaler node member => ?_, ?_⟩
  · by_cases self : other = party
    · subst self
      exact passes.known
    · have known := ledger.known other
      have rest : next.pc other = state.pc other := moves.rest self
      have waits := waits_other ledger.waiting moves self
      have request : next.requested other = state.requested other :=
        congrArg Permit.permits (passes.request other self)
      rw [rest] at waits
      rw [request, rest]
      refine ⟨known.request, fun given => ?_, fun given value => ?_, fun armed => ?_, known.takes⟩
      · rw [passes.aux other self]
        exact known.served (waits ▸ given)
      · rw [passes.aux other self]
        rcases passes.signalled other self value with before | none
        · exact known.whole (waits ▸ given) before
        · exact none
      · rw [passes.aux other self]
        exact known.armed armed
  · by_cases self : signaler = party
    · subst self
      exact popped signaler node (passes.chain node member)
    · have rest : next.pc signaler = state.pc signaler := moves.rest self
      rw [rest] at member
      exact popped signaler node member
  · have total := sum_exchange party fun other different =>
      share_other ledger.waiting moves different (passes.request other different)
        (passes.aux other different)
    have balance := passes.balance
    have count := ledger.count
    omega

end Ledger

end Xutex.Semaphore
