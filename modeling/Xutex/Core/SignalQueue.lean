/-
**The intrusive queue.**

`SignalQueue` (`xutex-pool`) is two pointers; the list between them runs through the `next` links of
the nodes, which belong to the waiters and outlive their stay in the queue. Popped and removed nodes
keep the links they had, emptiness is read off `first`, and `push` goes by `last`.

* `Heap` — a queue together with the links of all nodes there are, linked or not.
* `removeLoop` — the loop of `remove`, for a number of rounds; `remove_linked`: as many as there are
  nodes, and one, are enough.
* `Op`, `Op.run` — the operations, and what they do to a list.
* `Represents` — the queue is the list; `perform_represents` — **every operation does to the queue
  what it does to the list, with the same answer, and writes no link outside.**
* `queue_is_list` — in every run that calls `push` for nodes that are not linked and have no link,
  the queue is the list that the calls make.
-/

import Xutex.Concurrency.Linked
import Xutex.Concurrency.Observers

set_option linter.unusedSectionVars false

namespace Xutex

open Concurrency

/-! ### The list -/

namespace SignalQueue

/-- An operation of `SignalQueue`. -/
inductive Op (ν : Type)
  | push (node : ν)
  | pop
  | remove (node : ν)
  | first
  | isEmpty
  deriving DecidableEq, Repr

/-- What an operation answers. -/
inductive Answer (ν : Type)
  | flag (value : Bool)
  | node (found : Option ν)
  deriving DecidableEq, Repr

/-- The list after an operation, and its answer. -/
def Op.run {ν : Type} [DecidableEq ν] (entries : List ν) : Op ν → List ν × Answer ν
  | push node => (entries ++ [node], .flag entries.isEmpty)
  | pop => (entries.tail, .node entries.head?)
  | remove node => (entries.erase node, .flag (decide (node ∈ entries)))
  | first => (entries, .node entries.head?)
  | isEmpty => (entries, .flag entries.isEmpty)

end SignalQueue

/-! ### The queue -/

/-- The two pointers of a queue. -/
structure SignalQueue (ν : Type) where
  first : Option ν
  last : Option ν
  deriving DecidableEq, Repr

namespace SignalQueue

/-- `SignalQueue::new`. -/
def new {ν : Type} : SignalQueue ν := ⟨none, none⟩

/-- A queue and the `next` links of the nodes. -/
structure Heap (ν : Type) where
  queue : SignalQueue ν
  next : ν → Option ν

section Functions

variable {ν : Type} [DecidableEq ν] (heap : Heap ν)

/-- `SignalQueue::push`, and whether the queue was empty. -/
def push (entry : ν) : Heap ν × Bool :=
  match heap.queue.last with
  | some old =>
    (⟨⟨heap.queue.first, some entry⟩, Function.update heap.next old (some entry)⟩, false)
  | none => (⟨⟨some entry, some entry⟩, heap.next⟩, true)

/-- `SignalQueue::is_empty`. -/
def isEmpty (queue : SignalQueue ν) : Bool := queue.first.isNone

/-- `SignalQueue::pop`. The node keeps its link. -/
def pop : Heap ν × Option ν :=
  match heap.queue.first with
  | none => (heap, none)
  | some first =>
    match heap.next first with
    | some next => ({ heap with queue := ⟨some next, heap.queue.last⟩ }, some first)
    | none => ({ heap with queue := ⟨none, none⟩ }, some first)

/-- The node at `cur` is taken out. -/
def unlink (entry : ν) (prev : Option ν) (cur : ν) : Heap ν where
  queue.first :=
    match prev with
    | some _ => heap.queue.first
    | none => heap.next cur
  queue.last := if heap.queue.last = some entry then prev else heap.queue.last
  next :=
    match prev with
    | some prev => Function.update heap.next prev (heap.next cur)
    | none => heap.next

/-- The loop of `SignalQueue::remove`, for at most `rounds` rounds. -/
def removeLoop (entry : ν) : ℕ → Option ν → Option ν → Option (Heap ν × Bool)
  | 0, _, _ => none
  | _ + 1, _, none => some (heap, false)
  | rounds + 1, prev, some cur =>
    if cur = entry then some (unlink heap entry prev cur, true)
    else removeLoop entry rounds (some cur) (heap.next cur)

/-- `SignalQueue::remove`. -/
def remove (rounds : ℕ) (entry : ν) : Option (Heap ν × Bool) :=
  removeLoop heap entry rounds none heap.queue.first

/-- An operation on the queue, with its answer. -/
def perform (rounds : ℕ) : Op ν → Option (Heap ν × Answer ν)
  | .push node => some ((push heap node).1, .flag (push heap node).2)
  | .pop => some ((pop heap).1, .node (pop heap).2)
  | .remove node => (remove heap rounds node).map fun result => (result.1, .flag result.2)
  | .first => some (heap, .node heap.queue.first)
  | .isEmpty => some (heap, .flag (isEmpty heap.queue))

end Functions

/-! ### The queue is a list -/

/-- **The queue is the list `entries`.** -/
structure Represents {ν : Type} (heap : Heap ν) (entries : List ν) : Prop where
  first : heap.queue.first = entries.head?
  last : heap.queue.last = entries.getLast?
  nodup : entries.Nodup
  linked : Linked heap.next entries

section Represents

variable {ν : Type} [DecidableEq ν] {heap : Heap ν} {entries : List ν} {node : ν}

theorem Represents.new (next : ν → Option ν) : Represents ⟨SignalQueue.new, next⟩ [] :=
  ⟨rfl, rfl, List.nodup_nil, trivial⟩

/-- The contract of an operation: a node is pushed when it is not linked and has no link. -/
def Fresh (heap : Heap ν) (entries : List ν) (op : Op ν) : Prop :=
  ∀ node, op = .push node → node ∉ entries ∧ heap.next node = none

/-- The links of other nodes are not written. -/
def Frame (entries : List ν) (heap heap' : Heap ν) : Prop :=
  ∀ node, node ∉ entries → heap'.next node = heap.next node

theorem push_represents (queue : Represents heap entries) (outside : node ∉ entries)
    (free : heap.next node = none) :
    Represents (push heap node).1 (entries ++ [node]) ∧ (push heap node).2 = entries.isEmpty ∧
      Frame entries heap (push heap node).1 := by
  have nodup : (entries ++ [node]).Nodup := List.nodup_append.mpr
    ⟨queue.nodup, List.nodup_singleton _, fun old inside new same clash =>
      outside (List.mem_singleton.mp same ▸ clash ▸ inside)⟩
  unfold push
  split
  · rename_i old ends
    have ends : entries.getLast? = some old := by rw [← queue.last, ends]
    have inside : old ∈ entries := List.mem_of_getLast? ends
    have filled : entries ≠ [] := List.ne_nil_of_mem inside
    refine ⟨⟨?_, by simp, nodup, queue.linked.append_one ends queue.nodup outside free⟩, ?_,
      fun other elsewhere => ?_⟩
    · rw [List.head?_append_of_ne_nil _ filled]
      exact queue.first
    · simpa using filled
    · have different : other ≠ old := fun same => elsewhere (same ▸ inside)
      exact Function.update_of_ne different ..
  · rename_i ends
    obtain rfl : entries = [] := by simpa [queue.last] using ends
    exact ⟨⟨rfl, rfl, nodup, free, trivial⟩, rfl, fun _ _ => rfl⟩

theorem pop_represents (queue : Represents heap entries) :
    Represents (pop heap).1 entries.tail ∧ (pop heap).2 = entries.head? ∧
      (pop heap).1.next = heap.next := by
  have front := queue.first
  unfold pop
  cases entries with
  | nil =>
    rw [show heap.queue.first = none from front]
    exact ⟨queue, rfl, rfl⟩
  | cons head rest =>
    rw [show heap.queue.first = some head from front]
    have link : heap.next head = rest.head? := queue.linked.1
    have nodup := (List.nodup_cons.mp queue.nodup).2
    dsimp only
    rw [link]
    cases rest with
    | nil => exact ⟨⟨rfl, rfl, nodup, trivial⟩, rfl, rfl⟩
    | cons second others =>
      refine ⟨⟨rfl, ?_, nodup, queue.linked.2⟩, rfl, rfl⟩
      show heap.queue.last = _
      rw [queue.last]
      simp

/-- The node the loop is at is taken out. -/
theorem unlink_represents {before after : List ν}
    (queue : Represents heap (before ++ node :: after)) :
    Represents (unlink heap node before.getLast? node) (before ++ after) ∧
      Frame (before ++ node :: after) heap (unlink heap node before.getLast? node) := by
  have link : heap.next node = after.head? := queue.linked.next_eq
  have nodup : (before ++ after).Nodup :=
    queue.nodup.sublist (List.Sublist.append_left (List.sublist_cons_self node after) before)
  have ends : (unlink heap node before.getLast? node).queue.last = (before ++ after).getLast? := by
    show (if heap.queue.last = some node then _ else _) = _
    rw [queue.last]
    cases after with
    | nil => simp
    | cons second others =>
      have apart : (second :: others).getLast? ≠ some node := fun same =>
        (List.nodup_cons.mp (List.nodup_append.mp queue.nodup).2.1).1 (List.mem_of_getLast? same)
      simp [apart]
  rcases List.eq_nil_or_concat before with rfl | ⟨front, prev, rfl⟩
  · refine ⟨⟨link, ends, nodup, queue.linked.2⟩, fun _ _ => rfl⟩
  · rw [List.concat_eq_append] at queue nodup ends ⊢
    have prevLast : (front ++ [prev]).getLast? = some prev := by simp
    refine ⟨⟨?_, ends, nodup, ?_⟩, fun other elsewhere => ?_⟩
    · rw [prevLast]
      show heap.queue.first = _
      rw [queue.first]
      cases front <;> rfl
    · rw [prevLast]
      have linked := queue.linked
      simp only [List.append_assoc, List.singleton_append] at linked ⊢
      refine linked.skip ?_
      simpa using queue.nodup
    · rw [prevLast]
      have different : other ≠ prev := fun same => elsewhere (by simp [same])
      exact Function.update_of_ne different ..

/-- **The loop of `remove`** from a node of the list: it ends after as many rounds as there are
nodes left, and one. -/
theorem removeLoop_represents {rounds : ℕ} {before after : List ν}
    (queue : Represents heap (before ++ after))
    (unseen : node ∉ before) (enough : after.length < rounds) :
    ∃ heap', removeLoop heap node rounds before.getLast? after.head? =
      some (heap', decide (node ∈ before ++ after)) ∧
      Represents heap' ((before ++ after).erase node) ∧ Frame (before ++ after) heap heap' := by
  induction after generalizing before rounds with
  | nil =>
    obtain ⟨fewer, rfl⟩ : ∃ fewer, rounds = fewer + 1 := ⟨rounds - 1, by omega⟩
    have outside : node ∉ before ++ [] := by simpa using unseen
    refine ⟨heap, ?_, ?_, fun _ _ => rfl⟩
    · rw [decide_eq_false outside]
      rfl
    · rw [List.erase_of_not_mem outside]
      exact queue
  | cons cur rest ih =>
    obtain ⟨fewer, rfl⟩ : ∃ fewer, rounds = fewer + 1 := ⟨rounds - 1, by omega⟩
    rw [List.head?_cons, removeLoop]
    split
    · rename_i same
      subst same
      obtain ⟨represents, frame⟩ := unlink_represents queue
      refine ⟨_, by simp, ?_, frame⟩
      rw [List.erase_append_right _ unseen, List.erase_cons_head]
      exact represents
    · rename_i different
      have link : heap.next cur = rest.head? := queue.linked.next_eq
      have shift : before ++ cur :: rest = (before ++ [cur]) ++ rest := by simp
      have prev : some cur = (before ++ [cur]).getLast? := by simp
      rw [shift] at queue ⊢
      rw [link, prev]
      exact ih queue (by simp [unseen, Ne.symm different]) (by simpa using enough)

/-- More rounds than the loop needs make no difference. -/
theorem removeLoop_mono {rounds more : ℕ} {prev cur : Option ν} {result : Heap ν × Bool}
    (ended : removeLoop heap node rounds prev cur = some result) (enough : rounds ≤ more) :
    removeLoop heap node more prev cur = some result := by
  induction rounds generalizing more prev cur with
  | zero => cases ended
  | succ rounds ih =>
    obtain ⟨fewer, rfl⟩ : ∃ fewer, more = fewer + 1 := ⟨more - 1, by omega⟩
    cases cur with
    | none => exact ended
    | some cur =>
      rw [removeLoop] at ended ⊢
      split at ended
      · rw [if_pos ‹_›]
        exact ended
      · rw [if_neg ‹_›]
        exact ih ended (by omega)

theorem remove_represents {rounds : ℕ} (node : ν) (queue : Represents heap entries)
    (enough : entries.length < rounds) :
    ∃ heap', remove heap rounds node = some (heap', decide (node ∈ entries)) ∧
      Represents heap' (entries.erase node) ∧ Frame entries heap heap' := by
  have unseen : node ∉ ([] : List ν) := List.not_mem_nil
  have whole : Represents heap ([] ++ entries) := queue
  have loop := removeLoop_represents whole unseen enough
  rw [← queue.first] at loop
  exact loop

/-- **Every operation does to the queue what it does to the list**, with the same answer. -/
theorem perform_represents {rounds : ℕ} {op : Op ν} (queue : Represents heap entries)
    (fresh : Fresh heap entries op) (enough : entries.length < rounds) :
    ∃ heap', perform heap rounds op = some (heap', (op.run entries).2) ∧
      Represents heap' (op.run entries).1 ∧ Frame entries heap heap' := by
  cases op with
  | push node =>
    obtain ⟨outside, free⟩ := fresh node rfl
    obtain ⟨represents, answer, frame⟩ := push_represents queue outside free
    exact ⟨_, by rw [perform, answer]; rfl, represents, frame⟩
  | pop =>
    obtain ⟨represents, answer, links⟩ := pop_represents queue
    exact ⟨_, by rw [perform, answer]; rfl, represents, fun _ _ => by rw [links]⟩
  | remove node =>
    obtain ⟨heap', removed, represents, frame⟩ := remove_represents node queue enough
    exact ⟨heap', by rw [perform, removed]; rfl, represents, frame⟩
  | first => exact ⟨heap, by rw [perform, queue.first]; rfl, queue, fun _ _ => rfl⟩
  | isEmpty =>
    refine ⟨heap, ?_, queue, fun _ _ => rfl⟩
    rw [perform, isEmpty, queue.first]
    cases entries <;> rfl

end Represents

/-! ### Runs -/

/-- A call of an operation, with a bound on the rounds of its loop, or a write of an owner to the
link of its node. -/
inductive Call (ν : Type)
  | op (op : Op ν) (rounds : ℕ)
  | write (node : ν) (link : Option ν)

section Runs

variable {ν : Type} [DecidableEq ν]

/-- The heap after a call. -/
def call (heap : Heap ν) : Call ν → Option (Heap ν)
  | .op op rounds => (perform heap rounds op).map Prod.fst
  | .write node link => some { heap with next := Function.update heap.next node link }

/-- An empty queue among nodes with any links. -/
def machine (ν : Type) [DecidableEq ν] : System (Heap ν) (Call ν) where
  init heap := heap.queue = new
  step := call

/-- The links do not lead from the queue to the node. -/
def Outside (heap : Heap ν) (node : ν) :
    Prop := ∀ steps, node ∉ walk heap.next steps heap.queue.first

/-- **The contract**: what is pushed is not linked and has no link, and owners write only to nodes
that are not linked. -/
def Contract (heap : Heap ν) : Call ν → Prop
  | .op (.push node) _ => Outside heap node ∧ heap.next node = none
  | .op _ _ => True
  | .write node _ => Outside heap node

/-- The list the calls make. -/
def listed (entries : List ν) (_ : Heap ν) (call : Call ν) (_ : Heap ν) : List ν :=
  match call with
  | .op op _ => (op.run entries).1
  | .write _ _ => entries

/-- The runs that keep the contract, with the list the calls make. -/
abbrev Listed (heap : Heap ν) (entries : List ν) : Prop :=
  (machine ν).ObservedBy [] listed (fun heap call _ => Contract heap call) heap entries

/-- **What the queue is in every run.** -/
structure Implements (heap : Heap ν) (entries : List ν) : Prop where
  /-- No node is in the list twice. -/
  nodup : entries.Nodup
  /-- The links lead from `first` through the list, and no further, however far one goes. -/
  visits : ∀ steps, entries.length ≤ steps → walk heap.next steps heap.queue.first = entries
  /-- They end at `last`, which has no link. -/
  ends : heap.queue.last = entries.getLast? ∧ ∀ last, heap.queue.last = some last →
    heap.next last = none
  null : heap.queue.first = none ↔ heap.queue.last = none
  /-- Every operation returns, with the answer and the list that it should, and leaves the links of
  other nodes alone. -/
  returns : ∀ op rounds, Contract heap (.op op rounds) → entries.length < rounds →
    ∃ heap', perform heap rounds op = some (heap', (op.run entries).2) ∧
      Represents heap' (op.run entries).1 ∧ Frame entries heap heap'

variable {heap : Heap ν} {entries : List ν} {node : ν}

/-- A member is reached from the front. -/
theorem Represents.outside_iff (queue : Represents heap entries) : Outside heap node ↔
    node ∉ entries := by
  have walked (steps : ℕ) (enough : entries.length ≤ steps) :
      walk heap.next steps heap.queue.first = entries := by
    rw [queue.first]
    exact walk_linked queue.linked enough
  constructor
  · intro outside
    rw [← walked entries.length (Nat.le_refl _)]
    exact outside entries.length
  · intro elsewhere steps reached
    rw [queue.first] at reached
    exact elsewhere (walk_subset queue.linked reached)

theorem perform_mono {rounds more : ℕ} {op : Op ν} {result : Heap ν × Answer ν}
    (ended : perform heap rounds op = some result) (enough : rounds ≤ more) :
    perform heap more op = some result := by
  cases op with
  | remove node =>
    obtain ⟨found, loop, rfl⟩ := Option.map_eq_some_iff.mp ended
    exact Option.map_eq_some_iff.mpr ⟨found, removeLoop_mono loop enough, rfl⟩
  | push | pop | first | isEmpty => exact ended

theorem Represents.fresh {op : Op ν} {rounds : ℕ} (queue : Represents heap entries)
    (contract : Contract heap (.op op rounds)) : Fresh heap entries op := by
  rintro node rfl
  exact ⟨queue.outside_iff.mp contract.1, contract.2⟩

/-- An operation that has returned has done to the queue what it does to the list. -/
theorem Represents.performed {op : Op ν} {rounds : ℕ} {result : Heap ν × Answer ν}
    (queue : Represents heap entries)
    (fresh : Fresh heap entries op) (performed : perform heap rounds op = some result) :
    result.2 = (op.run entries).2 ∧ Represents result.1 (op.run entries).1 ∧
      Frame entries heap result.1 := by
  have enough : entries.length < rounds + entries.length + 1 := by omega
  obtain ⟨heap', returned, represents, frame⟩ := perform_represents queue fresh enough
  rw [perform_mono performed (by omega)] at returned
  cases returned
  exact ⟨rfl, represents, frame⟩

/-- In every run the queue is the list the calls make. -/
theorem represents_of_listed (reach : Listed heap entries) : Represents heap entries := by
  refine System.ReachableBy.observed Represents ?_ ?_ reach
  · rintro ⟨queue, next⟩ rfl
    exact .new next
  · intro heap entries call next _ queue stepped contract
    cases call with
    | op op rounds =>
      obtain ⟨result, performed, rfl⟩ := Option.map_eq_some_iff.mp stepped
      exact (queue.performed (queue.fresh contract) performed).2.1
    | write node link =>
      cases stepped
      have elsewhere : node ∉ entries := queue.outside_iff.mp contract
      refine ⟨queue.first, queue.last, queue.nodup, queue.linked.congr fun other inside => ?_⟩
      have different : other ≠ node := fun same => elsewhere (same ▸ inside)
      exact Function.update_of_ne different ..

/-- **The intrusive queue is a list without duplicates**, whatever is called and in whatever
order. -/
theorem queue_is_list (reach : Listed heap entries) : Implements heap entries := by
  have queue := represents_of_listed reach
  refine ⟨queue.nodup, fun steps enough => ?_, ⟨queue.last, fun last ends => ?_⟩, ?_,
    fun op rounds contract => ?_⟩
  · rw [queue.first]
    exact walk_linked queue.linked enough
  · rw [queue.last] at ends
    obtain ⟨front, rfl⟩ := List.getLast?_eq_some_iff.mp ends
    exact queue.linked.next_eq
  · rw [queue.first, queue.last]
    simp
  · exact perform_represents queue (queue.fresh contract)

/-- Four nodes are pushed, the second is removed, the first is popped; the owner of the first clears
its link and it is pushed again, and the last is removed. -/
def recycled : List (Call (Fin 4)) :=
  [.op (.push 0) 0, .op (.push 1) 0, .op (.push 2) 0, .op (.push 3) 0, .op (.remove 1) 2,
    .op .pop 0, .write 0 none, .op (.push 0) 0, .op (.remove 3) 2]

/-- The contract, looked up along at most `bound` links. -/
def keeps (bound : ℕ) (heap : Heap ν) : Call ν → Bool
  | .op (.push node) _ => outside node && decide (heap.next node = none)
  | .op _ _ => true
  | .write node _ => outside node
where
  outside (node : ν) : Bool :=
    let walked := walk heap.next bound heap.queue.first
    decide (walked.length < bound ∧ node ∉ walked)

theorem contract_of_keeps {bound : ℕ} {call : Call ν} (kept : keeps bound heap call = true) :
    Contract heap call := by
  have outside (node : ν) (looked : keeps.outside bound heap node = true) : Outside heap node :=
    have found := of_decide_eq_true looked
    not_mem_walk found.1 found.2
  unfold keeps at kept
  split at kept
  · rw [Bool.and_eq_true] at kept
    exact ⟨outside _ kept.1, of_decide_eq_true kept.2⟩
  · rename_i op rounds other
    cases op with
    | push node => exact absurd rfl (other node)
    | pop | remove | first | isEmpty => trivial
  · exact outside _ kept

/-- The first node is in the queue for the second time, behind the third. -/
theorem queue_is_list_recycled : ∃ (heap : Heap (Fin 4)) (entries : List (Fin 4)),
    Listed heap entries ∧
    entries = [2, 0] ∧ heap.queue = ⟨some 2, some 0⟩ ∧ Implements heap entries := by
  obtain ⟨heap, entries, reach, ended⟩ := System.exists_observedBy_of_run (machine (Fin 4)) []
    listed (fun heap call _ => keeps 5 heap call)
    (fun heap entries => decide (entries = [2, 0] ∧ heap.queue = ⟨some 2, some 0⟩))
    (show (machine (Fin 4)).init ⟨new, fun _ => none⟩ from rfl) recycled (by decide +kernel)
  obtain ⟨list, queue⟩ := of_decide_eq_true ended
  have listed : Listed heap entries := reach.mono fun _ _ _ => contract_of_keeps
  exact ⟨heap, entries, listed, list, queue, queue_is_list listed⟩

end Runs

end SignalQueue

end Xutex
