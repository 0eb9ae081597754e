/-
**Chains of popped nodes.**

`PoppedChain` (`wait_queue.rs`) is two pointers: the nodes between them hang together by the links
they had in the queue. `seal` cuts the link that leads back into the queue, the lock is released,
and `signal_all` walks along the links while other threads go on with the queue and the owners of
signalled nodes do with them what they like.

* `State` — any number of queues, threads and nodes; a node is free while its owner may use it.
* `operate` — an operation of `SignalQueue` under the lock; what is popped is appended to the chain
  of the thread.
* `signalAll`, `signalNode` — the loop of `signal_all`, one access to a node at a time.
* `Kept` — what every step keeps: every node is with its owner, in one queue or in one chain, and
  the links of a chain lead through what is left of it.
* `chain_exact` — **what is signalled is what was popped, in order and once each, and nothing else
  is visited.**
-/

import Xutex.Core.SignalQueue

set_option linter.unusedSectionVars false

namespace Xutex

open Concurrency

/-! ### The chain -/

/-- The two pointers of a chain. -/
structure PoppedChain (ν : Type) where
  head : Option ν
  last : Option ν
  deriving DecidableEq, Repr

namespace PoppedChain

open SignalQueue (Heap Op Answer Represents Frame Fresh perform)

/-- `PoppedChain::new`. -/
def new {ν : Type} : PoppedChain ν := ⟨none, none⟩

/-- `PoppedChain::append`. -/
def append {ν : Type} (chain : PoppedChain ν) (node : ν) : PoppedChain ν where
  head := if chain.head.isNone then some node else chain.head
  last := some node

/-- `PoppedChain::seal`. -/
def sealChain {ν : Type} [DecidableEq ν] (chain : PoppedChain ν) (next : ν → Option ν) :
    ν → Option ν :=
  match chain.last with
  | some last => Function.update next last none
  | none => next

/-! ### The state -/

/-- Where a thread is. -/
inductive Pc (κ ν : Type)
  | idle
  -- it has locked a queue
  | locked (queue : κ) (chain : PoppedChain ν)
  | sealed (queue : κ) (chain : PoppedChain ν)
  -- `signal_all`
  | signalAll (cur : Option ν)
  -- `signal_node`
  | takeWaker (node : ν) (cur : Option ν)
  | store (node : ν) (cur : Option ν)
  deriving DecidableEq, Repr

/-- The queues, the nodes and the threads. -/
structure State (κ τ ν : Type) where
  queues : κ → SignalQueue ν
  next : ν → Option ν
  /-- Who has locked a queue. -/
  holder : κ → Option τ
  /-- The owner of the node may use it. -/
  free : ν → Bool
  pc : τ → Pc κ ν

/-- What a thread can be asked to do. -/
inductive Move (κ ν : Type)
  | lock (queue : κ)
  | operate (op : Op ν) (rounds : ℕ)
  | sealChain
  | unlock
  | advance
  deriving DecidableEq, Repr

/-- A step of a thread, or a write of an owner to the link of its node. -/
inductive Label (κ τ ν : Type)
  | thread (thread : τ) (move : Move κ ν)
  | write (node : ν) (link : Option ν)
  deriving DecidableEq, Repr

section Functions

variable {κ τ ν : Type} [DecidableEq κ] [DecidableEq τ] [DecidableEq ν] (state : State κ τ ν)
  (thread : τ)

/-- The thread goes on at `pc`. -/
@[simp] def State.goto (pc : Pc κ ν) :
    State κ τ ν := { state with pc := Function.update state.pc thread pc }

/-- A queue, and the links of all nodes. -/
def State.heap (queue : κ) : Heap ν := ⟨state.queues queue, state.next⟩

/-- An operation has left the queue and the links like this. -/
@[simp] def State.withHeap (queue : κ) (heap : Heap ν) : State κ τ ν :=
  { state with queues := Function.update state.queues queue heap.queue, next := heap.next }

/-- Pushes and removals are not mixed with the pops of a chain, and what is pushed is free and has
no link. -/
def allowed (chain : PoppedChain ν) : Op ν → Bool
  | .push node => decide (chain = new) && state.free node && decide (state.next node = none)
  | .remove _ => decide (chain = new)
  | .pop | .first | .isEmpty => true

/-- What becomes of the node of an operation: it is the queue's when it was pushed, the chain's when
it was popped and the owner's when it was removed. -/
def settle (queue : κ) (chain : PoppedChain ν) : Op ν → Answer ν → State κ τ ν
  | .push node, _ => { state with free := Function.update state.free node false }
  | .pop, .node (some node) => state.goto thread (.locked queue (chain.append node))
  | .remove node, .flag true => { state with free := Function.update state.free node true }
  | _, _ => state

/-- An operation on the locked queue. -/
def operate (queue : κ) (chain : PoppedChain ν) (op : Op ν) (rounds : ℕ) : Option (State κ τ ν) :=
  if allowed state chain op then
    (perform (state.heap queue) rounds op).map fun result =>
      settle (state.withHeap queue result.1) thread queue chain op result.2
  else none

/-- The loop of `signal_all`: the link is read before the node is signalled. -/
def signalAll : Option ν → State κ τ ν
  | some node => state.goto thread (.takeWaker node (state.next node))
  | none => state.goto thread .idle

/-- The store of `signal_node`, after which the node is the owner's. -/
def storeValue (node : ν) (cur : Option ν) : State κ τ ν :=
  { state with free := Function.update state.free node true }.goto thread (.signalAll cur)

/-- The step of a thread. -/
def move : Move κ ν → Option (State κ τ ν)
  | .lock queue =>
    if state.pc thread = .idle ∧ state.holder queue = none then
      some ({ state with holder := Function.update state.holder queue (some thread) }.goto thread
        (.locked queue new))
    else none
  | .operate op rounds =>
    match state.pc thread with
    | .locked queue chain => operate state thread queue chain op rounds
    | _ => none
  | .sealChain =>
    match state.pc thread with
    | .locked queue chain =>
      some ({ state with next := chain.sealChain state.next }.goto thread (.sealed queue chain))
    | _ => none
  | .unlock =>
    match state.pc thread with
    | .sealed queue chain =>
      some ({ state with holder := Function.update state.holder queue none }.goto thread
        (.signalAll chain.head))
    | _ => none
  | .advance =>
    match state.pc thread with
    | .signalAll cur => some (signalAll state thread cur)
    | .takeWaker node cur => some (state.goto thread (.store node cur))
    | .store node cur => some (storeValue state thread node cur)
    | _ => none

/-- The step of a label. -/
def step : Label κ τ ν → Option (State κ τ ν)
  | .thread thread action => move state thread action
  | .write node link => if state.free node then some
    { state with next := Function.update state.next node link } else none

end Functions

/-- Empty queues, and nodes that are with their owners and have any links. -/
def machine (κ τ ν : Type) [DecidableEq κ] [DecidableEq τ] [DecidableEq ν] :
    System (State κ τ ν) (Label κ τ ν) where
  init state := (∀ queue, state.queues queue = SignalQueue.new) ∧
    (∀ queue, state.holder queue = none) ∧
    (∀ node, state.free node = true) ∧ ∀ thread, state.pc thread = .idle
  step := step

/-! ### What is popped and what is signalled -/

/-- The lists the operations make of the queues, and what a thread has popped and signalled since it
locked its queue. -/
structure Record (κ τ ν : Type) where
  entries : κ → List ν
  popped : τ → List ν
  signalled : τ → List ν

section Record

variable {κ τ ν : Type} [DecidableEq κ] [DecidableEq τ] [DecidableEq ν]

/-- Nothing has happened. -/
def Record.empty : Record κ τ ν := ⟨fun _ => [], fun _ => [], fun _ => []⟩

/-- What `pop` answers goes into the record. -/
def answered (state : State κ τ ν) (queue : κ) : Op ν → List ν
  | .pop => (SignalQueue.pop (state.heap queue)).2.toList
  | _ => []

/-- What a step of a thread adds to the record. -/
def Record.note (record : Record κ τ ν) (state : State κ τ ν) (thread : τ) : Move κ ν → Record κ τ ν
  | .lock _ =>
    { record with popped := Function.update record.popped thread [],
                  signalled := Function.update record.signalled thread [] }
  | .operate op _ =>
    match state.pc thread with
    | .locked queue _ =>
      { record with
          entries := Function.update record.entries queue (op.run (record.entries queue)).1,
          popped :=
            Function.update record.popped thread (record.popped thread ++ answered state queue op) }
    | _ => record
  | .advance =>
    match state.pc thread with
    | .store node _ =>
      { record with
        signalled := Function.update record.signalled thread (record.signalled thread ++ [node]) }
    | _ => record
  | .sealChain | .unlock => record

/-- What a step adds to the record. -/
def recorded (record : Record κ τ ν) (state : State κ τ ν) (label : Label κ τ ν) (_ : State κ τ ν) :
    Record κ τ ν :=
  match label with
  | .thread thread action => record.note state thread action
  | .write _ _ => record

/-- The runs, with what is popped and signalled in them. -/
abbrev Recorded (state : State κ τ ν) (record : Record κ τ ν) : Prop :=
  (machine κ τ ν).ObservedBy Record.empty recorded (fun _ _ _ => True) state record

end Record

/-! ### What every step keeps -/

/-- Where a node is. -/
inductive Spot (κ τ : Type)
  | owner
  | queue (queue : κ)
  | chain (thread : τ)
  deriving DecidableEq

section Kept

variable {κ τ ν : Type} [DecidableEq κ] [DecidableEq τ] [DecidableEq ν]

/-- **The pointers of a thread**: `pending` are the nodes of its chain that it has not signalled. -/
def Shape (next : ν → Option ν) (entries : κ → List ν) (held : κ → Prop) (pending : List ν) :
    Pc κ ν → Prop
  | .idle => pending = []
  | .locked queue chain =>
    held queue ∧ chain = ⟨pending.head?, pending.getLast?⟩ ∧ Linked next (pending ++ entries queue)
  | .sealed queue chain => held queue ∧ chain.head = pending.head? ∧ Linked next pending
  | .signalAll cur => cur = pending.head? ∧ Linked next pending
  | .takeWaker node cur | .store node cur =>
    ∃ rest, pending = node :: rest ∧ cur = rest.head? ∧ Linked next rest

/-- The queue whose links a thread relies on. -/
def Pc.relies : Pc κ ν → Option κ
  | .locked queue _ => some queue
  | _ => none

/-- **Only the links of the chain and of the queue it hangs on matter.** -/
theorem Shape.congr {next next' : ν → Option ν} {entries entries' : κ → List ν}
    {held held' : κ → Prop}
    {pending : List ν} {pc : Pc κ ν} (shape : Shape next entries held pending pc)
    (same : ∀ node ∈ pending, next' node = next node) (holds : ∀ queue, held queue → held' queue)
    (rear : ∀ queue, pc.relies = some queue → held queue → entries' queue = entries queue ∧
      ∀ node ∈ entries queue, next' node = next node) :
    Shape next' entries' held' pending pc := by
  cases pc with
  | idle => exact shape
  | locked queue chain =>
    obtain ⟨held, pointers, linked⟩ := shape
    obtain ⟨list, links⟩ := rear queue rfl held
    refine ⟨holds queue held, pointers, ?_⟩
    rw [list]
    exact linked.congr fun node inside => (List.mem_append.mp inside).elim (same node) (links node)
  | sealed queue chain => exact ⟨holds queue shape.1, shape.2.1, shape.2.2.congr same⟩
  | signalAll cur => exact ⟨shape.1, shape.2.congr same⟩
  | takeWaker node cur | store node cur =>
    obtain ⟨rest, rfl, leads, linked⟩ := shape
    exact ⟨rest, rfl, leads, linked.congr fun other inside => same other
      (List.mem_cons_of_mem _ inside)⟩

/-- **What a step keeps of a thread.** -/
structure Own (next : ν → Option ν) (entries : κ → List ν) (held : κ → Prop) (inChain : ν → Prop)
    (popped signalled pending : List ν) (pc : Pc κ ν) : Prop where
  shape : Shape next entries held pending pc
  chained : ∀ node ∈ pending, inChain node
  /-- What has been popped is what has been signalled and what is left. -/
  split : popped = signalled ++ pending
  nodup : popped.Nodup
  /-- Nothing is signalled before the chain is sealed. -/
  early : ∀ queue, pc.relies = some queue → signalled = []

/-- **What every step keeps.** -/
structure Kept (state : State κ τ ν) (record : Record κ τ ν) (pending : τ → List ν)
    (spot : ν → Spot κ τ) : Prop where
  queue : ∀ queue, Represents (state.heap queue) (record.entries queue)
  own : ∀ thread, Own state.next record.entries (fun queue => state.holder queue = some thread)
    (fun node => spot node = .chain thread) (record.popped thread) (record.signalled thread)
    (pending thread) (state.pc thread)
  /-- Every node is in one place. -/
  queued : ∀ queue, ∀ node ∈ record.entries queue, spot node = .queue queue
  owned : ∀ node, state.free node = true → spot node = .owner

section Steps

variable {state next : State κ τ ν} {record : Record κ τ ν} {pending : τ → List ν}
  {spot : ν → Spot κ τ} {thread : τ} {links : ν → Option ν}

/-- Writes at nodes in one place leave the queues elsewhere alone. -/
theorem Kept.queue_elsewhere (kept : Kept state record pending spot) (place : Spot κ τ)
    (frame : ∀ node, spot node ≠ place → links node = state.next node) {queue : κ}
    (apart : .queue queue ≠ place) :
    Represents ⟨state.queues queue, links⟩ (record.entries queue) := by
  have represents := kept.queue queue
  refine ⟨represents.first, represents.last, represents.nodup,
    represents.linked.congr fun node inside => ?_⟩
  exact frame node (kept.queued queue node inside ▸ apart)

/-- Writes at nodes in one place, and nodes that leave it, leave the threads alone that have nothing
to do with it. -/
theorem Kept.own_elsewhere (kept : Kept state record pending spot) (place : Spot κ τ)
    {entries : κ → List ν} {holder : κ → Option τ} {spot' : ν → Spot κ τ}
    (frame : ∀ node, spot node ≠ place → links node = state.next node)
    (moved : ∀ node, spot node = .chain thread → spot' node = .chain thread)
    (lists : ∀ queue, .queue queue ≠ place → entries queue = record.entries queue)
    (apart : .chain thread ≠ place)
    (holds : ∀ queue, state.holder queue = some thread → .queue queue ≠ place ∧
      holder queue = some thread) :
    Own links entries (fun queue => holder queue = some thread)
      (fun node => spot' node = .chain thread)
      (record.popped thread) (record.signalled thread) (pending thread) (state.pc thread) := by
  have own := kept.own thread
  have same (node : ν) (inside : node ∈ pending thread) : links node = state.next node :=
    frame node (own.chained node inside ▸ apart)
  refine ⟨own.shape.congr same (fun queue held => (holds queue held).2) fun queue _ held => ?_,
    fun node inside => moved node (own.chained node inside), own.split, own.nodup, own.early⟩
  have other := (holds queue held).1
  exact ⟨lists queue other, fun node inside => frame node (kept.queued queue node inside ▸ other)⟩

theorem Kept.start (init : (machine κ τ ν).init state) :
    Kept state Record.empty (fun _ => []) fun _ => .owner := by
  obtain ⟨queues, -, -, idle⟩ := init
  refine ⟨fun queue => ?_, fun thread => ?_, fun _ _ inside => ?_, fun _ _ => rfl⟩
  · rw [State.heap, queues]
    exact .new _
  · rw [idle]
    exact ⟨rfl, fun _ inside => absurd inside List.not_mem_nil, rfl, List.nodup_nil, fun _ _ => rfl⟩
  · cases inside

/-- **A queue is locked.** -/
theorem Kept.lock (kept : Kept state record pending spot) {queue : κ}
    (stepped : move state thread (.lock queue) = some next) :
    Kept next (record.note state thread (.lock queue)) pending spot := by
  rw [move, Option.ite_none_right_eq_some] at stepped
  obtain ⟨⟨source, unheld⟩, stepped⟩ := stepped
  cases stepped
  have nothing : pending thread = [] := by
    have shape := (kept.own thread).shape
    rwa [source] at shape
  refine ⟨kept.queue, fun other => ?_, kept.queued, kept.owned⟩
  by_cases same : other = thread
  · subst same
    simp only [State.goto, Record.note, Function.update_self, nothing]
    exact ⟨⟨Function.update_self .., rfl, (kept.queue queue).linked⟩,
      fun _ inside => absurd inside List.not_mem_nil, rfl, List.nodup_nil, fun _ _ => rfl⟩
  · simp only [State.goto, Record.note, Function.update_of_ne same]
    refine kept.own_elsewhere .owner (fun _ _ => rfl) (fun _ => id) (fun _ _ => rfl) (by rintro ⟨⟩)
      fun other held => ⟨(by rintro ⟨⟩), ?_⟩
    have apart : other ≠ queue := by
      rintro rfl
      rw [unheld] at held
      cases held
    exact (Function.update_of_ne apart ..).trans held

/-- A thread that holds a queue is the only one. -/
theorem Kept.held_apart (kept : Kept state record pending spot) {queue other : κ}
    {chain : PoppedChain ν} {rival : τ}
    (source : state.pc thread = .locked queue chain ∨ state.pc thread = .sealed queue chain)
    (different : rival ≠ thread) (held : state.holder other = some rival) : other ≠ queue := by
  rintro rfl
  have shape := (kept.own thread).shape
  have mine : state.holder other = some thread := by
    rcases source with source | source <;>
    · rw [source] at shape
      exact shape.1
  rw [held] at mine
  exact different (Option.some.inj mine)

/-- Sealing writes to the last node only. -/
theorem sealChain_of_ne {chain : PoppedChain ν} {node : ν} (different : chain.last ≠ some node) :
    chain.sealChain links node = links node := by
  unfold PoppedChain.sealChain
  cases ends : chain.last with
  | some last => exact Function.update_of_ne (fun same => different (by rw [ends, same])) ..
  | none => rfl

/-- A sealed chain ends where the pops have ended. -/
theorem sealChain_linked {front rear : List ν} (linked : Linked links (front ++ rear))
    (nodup : front.Nodup) :
    Linked (PoppedChain.sealChain ⟨front.head?, front.getLast?⟩ links) front := by
  unfold PoppedChain.sealChain
  cases ends : front.getLast? with
  | some last => exact linked.cut ends nodup
  | none =>
    rw [List.getLast?_eq_none_iff.mp ends]
    trivial

section

variable (kept : Kept state record pending spot)
include kept

/-- **The chain is sealed**: the one link that is written is that of its last node. -/
theorem Kept.sealChain {queue : κ} {chain : PoppedChain ν}
    (source : state.pc thread = .locked queue chain) :
    Kept ({ state with next := chain.sealChain state.next }.goto thread (.sealed queue chain))
      record pending spot := by
  have own := kept.own thread
  rw [source] at own
  obtain ⟨held, rfl, linked⟩ := own.shape
  have nodup : (pending thread).Nodup := by
    have nodup := own.nodup
    rw [own.split] at nodup
    exact (List.nodup_append.mp nodup).2.1
  have frame (node : ν) (outside : spot node ≠ .chain thread) :
      PoppedChain.sealChain ⟨(pending thread).head?, (pending thread).getLast?⟩ state.next node =
        state.next node :=
    sealChain_of_ne fun ends => outside (own.chained node (List.mem_of_getLast? ends))
  refine ⟨fun other => kept.queue_elsewhere (.chain thread) frame (by rintro ⟨⟩), fun other => ?_,
    kept.queued, kept.owned⟩
  by_cases same : other = thread
  · subst same
    simp only [State.goto, Function.update_self]
    exact ⟨⟨held, rfl, sealChain_linked linked nodup⟩, own.chained, own.split, own.nodup,
      (by rintro _ ⟨⟩)⟩
  · simp only [State.goto, Function.update_of_ne same]
    exact kept.own_elsewhere (.chain thread) frame (fun _ => id) (fun _ _ => rfl)
      (by simpa using same) fun _ held => ⟨(by rintro ⟨⟩), held⟩

/-- **The queue is unlocked.** -/
theorem Kept.unlock {queue : κ} {chain : PoppedChain ν}
    (source : state.pc thread = .sealed queue chain) :
    Kept ({ state with holder := Function.update state.holder queue none }.goto thread
      (.signalAll chain.head)) record pending spot := by
  refine ⟨kept.queue, fun other => ?_, kept.queued, kept.owned⟩
  by_cases same : other = thread
  · subst same
    have own := kept.own other
    rw [source] at own
    simp only [State.goto, Function.update_self]
    exact ⟨⟨own.shape.2.1, own.shape.2.2⟩, own.chained, own.split, own.nodup, (by rintro _ ⟨⟩)⟩
  · simp only [State.goto, Function.update_of_ne same]
    refine kept.own_elsewhere .owner (fun _ _ => rfl) (fun _ => id) (fun _ _ => rfl) (by rintro ⟨⟩)
      fun place held => ⟨(by rintro ⟨⟩), ?_⟩
    have apart : place ≠ queue := kept.held_apart (.inr source) same held
    exact (Function.update_of_ne apart ..).trans held

/-- A step of `signal_all` that changes nothing but the place of the thread. -/
theorem Kept.goto {pc : Pc κ ν} (loose : pc.relies = none)
    (shape : Shape state.next record.entries (fun queue => state.holder queue = some thread)
      (pending thread) pc) :
    Kept (state.goto thread pc) record pending spot := by
  refine ⟨kept.queue, fun other => ?_, kept.queued, kept.owned⟩
  by_cases same : other = thread
  · subst same
    have own := kept.own other
    simp only [State.goto, Function.update_self]
    exact ⟨shape, own.chained, own.split, own.nodup, fun queue relies => by simp [loose] at relies⟩
  · simp only [State.goto, Function.update_of_ne same]
    exact kept.own other

/-- **A node is signalled**: it leaves the chain and is its owner's. -/
theorem Kept.storeValue {node : ν} {cur : Option ν} (source : state.pc thread = .store node cur) :
    Kept (storeValue state thread node cur) (record.note state thread .advance)
      (Function.update pending thread (pending thread).tail)
      (Function.update spot node .owner) := by
  have own := kept.own thread
  rw [source] at own
  obtain ⟨rest, chain, leads, linked⟩ := own.shape
  have inChain : spot node = .chain thread := own.chained node (by simp [chain])
  have nodup : (node :: rest).Nodup := by
    have nodup := own.nodup
    rw [own.split, chain] at nodup
    exact (List.nodup_append.mp nodup).2.1
  have moved (other : ν) (outside : spot other ≠ .chain thread) :
      Function.update spot node .owner other = spot other :=
    Function.update_of_ne (fun same => outside (by rw [same, inChain])) ..
  simp only [PoppedChain.storeValue, State.goto, Record.note, source]
  refine ⟨kept.queue, fun other => ?_, fun queue other inside => ?_, fun other freed => ?_⟩
  · by_cases same : other = thread
    · subst same
      simp only [Function.update_self, chain, List.tail_cons]
      refine ⟨⟨leads, linked⟩, fun other inside => ?_, ?_, own.nodup, (by rintro _ ⟨⟩)⟩
      · have different : other ≠ node := fun same => (List.nodup_cons.mp nodup).1 (same ▸ inside)
        rw [Function.update_of_ne different]
        exact own.chained other (by simp [chain, inside])
      · rw [own.split, chain, List.append_assoc]
        rfl
    · simp only [Function.update_of_ne same]
      refine kept.own_elsewhere (.chain thread) (fun _ _ => rfl) (fun next inside => ?_)
        (fun _ _ => rfl) (by simpa using same) fun _ held => ⟨(by rintro ⟨⟩), held⟩
      rw [moved next (by simpa [inside] using same)]
      exact inside
  · have queued := kept.queued queue other inside
    rw [moved other (by simp [queued])]
    exact queued
  · by_cases same : other = node
    · subst same
      exact Function.update_self ..
    · have freed : Function.update state.free node true other = true := freed
      rw [Function.update_of_ne same] at freed ⊢
      exact kept.owned other freed

/-- **An owner writes to the link of its node.** -/
theorem Kept.write {node : ν} {link : Option ν} (freed : state.free node = true) :
    Kept { state with next := Function.update state.next node link } record pending spot := by
  have frame (other : ν) (outside : spot other ≠ .owner) :
      Function.update state.next node link other = state.next other :=
    Function.update_of_ne (fun same => outside (by rw [same, kept.owned node freed])) ..
  exact ⟨fun queue => kept.queue_elsewhere .owner frame (by rintro ⟨⟩),
    fun thread => kept.own_elsewhere .owner frame (fun _ => id) (fun _ _ => rfl) (by rintro ⟨⟩)
    fun _ held => ⟨(by rintro ⟨⟩), held⟩, kept.queued, kept.owned⟩

/-- **The holder works on its queue.** Nodes come into the queue from their owners, and what leaves
it goes to the chain of the holder or to the owner. -/
theorem Kept.worked {queue : κ} {chain : PoppedChain ν} {heap : Heap ν} {list : List ν}
    {free : ν → Bool} {pcs : τ → Pc κ ν} {popped pending' : τ → List ν} {spot' : ν → Spot κ τ}
    (source : state.pc thread = .locked queue chain) (represents : Represents heap list)
    (frame : Frame (record.entries queue) (state.heap queue) heap)
    (moved : ∀ node, spot node ≠ .owner → spot node ≠ .queue queue → spot' node = spot node)
    (lists : ∀ node ∈ list, spot' node = .queue queue)
    (freed : ∀ node, free node = true → spot' node = .owner)
    (others : ∀ other, other ≠ thread → pcs other = state.pc other ∧
      popped other = record.popped other ∧ pending' other = pending other)
    (own : Own heap.next (Function.update record.entries queue list)
      (fun queue => state.holder queue = some thread) (fun node => spot' node = .chain thread)
      (popped thread) (record.signalled thread) (pending' thread) (pcs thread)) :
    Kept ⟨Function.update state.queues queue heap.queue, heap.next, state.holder, free, pcs⟩
      { record with entries := Function.update record.entries queue list, popped := popped }
      pending' spot' := by
  have outside (node : ν) (elsewhere : spot node ≠ .queue queue) :
      heap.next node = state.next node :=
    frame node fun inside => elsewhere (kept.queued queue node inside)
  refine ⟨fun other => ?_, fun other => ?_, fun other node inside => ?_, freed⟩
  · by_cases same : other = queue
    · subst same
      simpa [State.heap] using represents
    · simpa [State.heap, same] using kept.queue_elsewhere (.queue queue) outside
        (by simpa using same)
  · by_cases same : other = thread
    · subst same
      exact own
    · obtain ⟨pc, pops, chains⟩ := others other same
      simp only [pc, pops, chains]
      refine kept.own_elsewhere (.queue queue) outside (fun node inside => ?_)
        (fun place apart => ?_) (by rintro ⟨⟩) fun place held => ⟨?_, held⟩
      · rw [moved node (by simp [inside]) (by simp [inside])]
        exact inside
      · have apart : place ≠ queue := by simpa using apart
        exact Function.update_of_ne apart ..
      · simpa using kept.held_apart (.inl source) same held
  · by_cases same : other = queue
    · subst same
      exact lists node (by simpa using inside)
    · have queued := kept.queued other node (by simpa [same] using inside)
      rw [moved node (by simp [queued]) (by simpa [queued] using same)]
      exact queued

/-- The holder of a queue, before it has popped anything, has an empty chain. -/
theorem Kept.pending_nil {queue : κ} {chain : PoppedChain ν}
    (source : state.pc thread = .locked queue chain) (none : chain = new) :
    pending thread = [] := by
  have shape := (kept.own thread).shape
  rw [source] at shape
  have front : (pending thread).head? = Option.none := by
    have pointers := shape.2.1
    rw [none] at pointers
    exact (congrArg PoppedChain.head pointers).symm
  exact List.head?_eq_none_iff.mp front

/-- The chain of the holder, where nothing has been popped. -/
theorem Kept.own_unpopped {queue : κ} {chain : PoppedChain ν} {heap : Heap ν} {list : List ν}
    {spot' : ν → Spot κ τ} (source : state.pc thread = .locked queue chain) (none : chain = new)
    (represents : Represents heap list) :
    Own heap.next (Function.update record.entries queue list)
      (fun queue => state.holder queue = some thread)
      (fun node => spot' node = .chain thread) (record.popped thread) (record.signalled thread)
      (pending thread) (state.pc thread) := by
  have own := kept.own thread
  have nothing := kept.pending_nil source none
  rw [source, nothing] at own ⊢
  refine ⟨⟨own.shape.1, own.shape.2.1, ?_⟩, fun _ inside => absurd inside List.not_mem_nil,
    own.split, own.nodup, own.early⟩
  rw [Function.update_self]
  exact represents.linked

/-- **A node is pushed.** -/
theorem Kept.push {queue : κ} {chain : PoppedChain ν} {node : ν}
    (source : state.pc thread = .locked queue chain) (none : chain = new)
    (freed : state.free node = true) (unlinked : state.next node = Option.none) :
    Kept { state.withHeap queue (SignalQueue.push (state.heap queue) node).1 with
        free := Function.update state.free node false }
      { record with
        entries := Function.update record.entries queue (record.entries queue ++ [node]) } pending
      (Function.update spot node (.queue queue)) := by
  have owner := kept.owned node freed
  have outside : node ∉ record.entries queue := fun inside => by
    have queued := kept.queued queue node inside
    rw [owner] at queued
    cases queued
  obtain ⟨represents, -, frame⟩ := SignalQueue.push_represents (kept.queue queue) outside unlinked
  refine kept.worked source represents frame (fun other away _ => ?_) (fun other inside => ?_)
    (fun other freed => ?_) (fun _ _ => ⟨rfl, rfl, rfl⟩) (kept.own_unpopped source none represents)
  · exact Function.update_of_ne (fun same => away (by rw [same, owner])) ..
  · by_cases same : other = node
    · subst same
      exact Function.update_self ..
    · rw [Function.update_of_ne same]
      exact kept.queued queue other (by simpa [same] using inside)
  · have different : other ≠ node := by
      rintro rfl
      rw [Function.update_self] at freed
      cases freed
    rw [Function.update_of_ne different] at freed ⊢
    exact kept.owned other freed

end

theorem append_pointers (list : List ν) (node : ν) :
    append ⟨list.head?, list.getLast?⟩ node =
      ⟨(list ++ [node]).head?, (list ++ [node]).getLast?⟩ := by
  rw [List.getLast?_concat]
  cases list <;> rfl

section

variable (kept : Kept state record pending spot)
include kept

/-- **A node is popped** and appended to the chain: the links lead through both as they did. -/
theorem Kept.pop {queue : κ} {chain : PoppedChain ν} {node : ν} {rest : List ν}
    (source : state.pc thread = .locked queue chain) (front : record.entries queue = node :: rest) :
    Kept ((state.withHeap queue (SignalQueue.pop (state.heap queue)).1).goto thread
      (.locked queue (chain.append node)))
      { record with
        entries := Function.update record.entries queue rest,
        popped := Function.update record.popped thread (record.popped thread ++ [node]) }
      (Function.update pending thread (pending thread ++ [node]))
      (Function.update spot node (.chain thread)) := by
  have own := kept.own thread
  rw [source] at own
  obtain ⟨held, pointers, linked⟩ := own.shape
  have queued := kept.queued queue node (by simp [front])
  have represents := kept.queue queue
  have nodup : (node :: rest).Nodup := front ▸ represents.nodup
  obtain ⟨shorter, -, links⟩ := SignalQueue.pop_represents represents
  rw [front] at shorter linked
  have unsignalled := own.early queue rfl
  have split : record.popped thread = pending thread := by
    rw [own.split, unsignalled, List.nil_append]
  have outside : node ∉ pending thread := fun inside => by
    have chained := own.chained node inside
    rw [queued] at chained
    cases chained
  refine kept.worked source shorter (fun _ _ => by rw [links]) (fun other _ away => ?_)
    (fun other inside => ?_) (fun other freed => ?_) (fun other different => ?_) ?_
  · exact Function.update_of_ne (fun same => away (by rw [same, queued])) ..
  · have different : other ≠ node := fun same => (List.nodup_cons.mp nodup).1 (same ▸ inside)
    rw [Function.update_of_ne different]
    exact kept.queued queue other (by simp [front, show other ∈ rest from inside])
  · have owner := kept.owned other freed
    have different : other ≠ node := by
      rintro rfl
      rw [queued] at owner
      cases owner
    rw [Function.update_of_ne different]
    exact owner
  · simp [different]
  · simp only [Function.update_self, links, unsignalled, split]
    refine ⟨⟨held, ?_, ?_⟩, fun other inside => ?_, rfl, ?_, fun _ _ => rfl⟩
    · rw [pointers, append_pointers]
    · simpa [State.heap] using linked
    · by_cases same : other = node
      · subst same
        exact Function.update_self ..
      · rw [Function.update_of_ne same]
        exact own.chained other (by simpa [same] using inside)
    · have nodup : (pending thread).Nodup := split ▸ own.nodup
      exact List.nodup_append.mpr ⟨nodup, List.nodup_singleton _, fun old inside new same clash =>
        outside (List.mem_singleton.mp same ▸ clash ▸ inside)⟩

/-- **A node is removed.** -/
theorem Kept.remove {queue : κ} {chain : PoppedChain ν} {node : ν} {heap : Heap ν}
    (source : state.pc thread = .locked queue chain) (none : chain = new)
    (inside : node ∈ record.entries queue)
    (represents : Represents heap ((record.entries queue).erase node))
    (frame : Frame (record.entries queue) (state.heap queue) heap) :
    Kept { state.withHeap queue heap with free := Function.update state.free node true }
      { record with
        entries := Function.update record.entries queue
          ((record.entries queue).erase node) } pending
      (Function.update spot node .owner) := by
  have queued := kept.queued queue node inside
  have nodup := (kept.queue queue).nodup
  refine kept.worked source represents frame (fun other _ away => ?_) (fun other left => ?_)
    (fun other freed => ?_) (fun _ _ => ⟨rfl, rfl, rfl⟩) (kept.own_unpopped source none represents)
  · exact Function.update_of_ne (fun same => away (by rw [same, queued])) ..
  · obtain ⟨different, left⟩ := (nodup.mem_erase_iff).mp left
    rw [Function.update_of_ne different]
    exact kept.queued queue other left
  · by_cases same : other = node
    · subst same
      exact Function.update_self ..
    · rw [Function.update_of_ne same] at freed ⊢
      exact kept.owned other freed

/-- An operation that leaves the queue as it was. -/
theorem Kept.unchanged {queue : κ} {chain : PoppedChain ν} {op : Op ν} {rounds : ℕ}
    (source : state.pc thread = .locked queue chain)
    (list : (op.run (record.entries queue)).1 = record.entries queue)
    (nothing : answered state queue op = []) :
    Kept (state.withHeap queue (state.heap queue)) (record.note state thread (.operate op rounds))
      pending spot := by
  have queues : state.withHeap queue (state.heap queue) = state := by simp [State.heap]
  have noted : record.note state thread (.operate op rounds) = record := by
    simp [Record.note, source, list, nothing]
  rw [queues, noted]
  exact kept

/-- **An operation on the locked queue.** -/
theorem Kept.operate {queue : κ} {chain : PoppedChain ν} {op : Op ν} {rounds : ℕ}
    (source : state.pc thread = .locked queue chain)
    (stepped : operate state thread queue chain op rounds = some next) :
    ∃ pending' spot', Kept next (record.note state thread (.operate op rounds)) pending' spot' := by
  have represents := kept.queue queue
  rw [PoppedChain.operate, Option.ite_none_right_eq_some] at stepped
  obtain ⟨may, stepped⟩ := stepped
  cases op with
  | push node =>
    cases stepped
    simp only [allowed, Bool.and_eq_true, decide_eq_true_eq] at may
    obtain ⟨⟨none, freed⟩, unlinked⟩ := may
    have noted : record.note state thread (.operate (.push node) rounds) =
        { record with
          entries := Function.update record.entries queue (record.entries queue ++ [node]) } := by
      simp [Record.note, source, Op.run, answered]
    rw [noted]
    exact ⟨_, _, kept.push source none freed unlinked⟩
  | pop =>
    cases stepped
    obtain ⟨-, answer, -⟩ := SignalQueue.pop_represents represents
    cases front : record.entries queue with
    | nil =>
      rw [front] at represents answer
      have first : (state.heap queue).queue.first = none := represents.first
      have same : SignalQueue.pop (state.heap queue) = (state.heap queue, none) := by
        rw [SignalQueue.pop, first]
      dsimp only
      rw [same]
      exact ⟨_, _, kept.unchanged source (by simp [Op.run, front]) (by simp [answered, same])⟩
    | cons node rest =>
      rw [front, List.head?_cons] at answer
      have noted : record.note state thread (.operate .pop rounds) =
          { record with
            entries := Function.update record.entries queue rest,
            popped := Function.update record.popped thread (record.popped thread ++ [node]) } := by
        simp [Record.note, source, Op.run, answered, answer, front]
      dsimp only
      rw [noted, answer]
      exact ⟨_, _, kept.pop source front⟩
  | remove node =>
    obtain ⟨result, performed, rfl⟩ := Option.map_eq_some_iff.mp stepped
    have fresh : Fresh (state.heap queue) (record.entries queue) (.remove node) := by rintro _ ⟨⟩
    obtain ⟨answer, shorter, frame⟩ := represents.performed fresh performed
    have none : chain = new := of_decide_eq_true may
    have noted : record.note state thread (.operate (.remove node) rounds) =
        { record with
          entries := Function.update record.entries queue
            ((record.entries queue).erase node) } := by
      simp [Record.note, source, Op.run, answered]
    rw [noted, answer, Op.run]
    by_cases inside : node ∈ record.entries queue
    · rw [decide_eq_true inside]
      exact ⟨_, _, kept.remove source none inside shorter frame⟩
    · rw [decide_eq_false inside]
      rw [Op.run, List.erase_of_not_mem inside] at shorter
      rw [List.erase_of_not_mem inside]
      exact ⟨_, _, kept.worked source shorter frame (fun _ _ _ => rfl) (kept.queued queue)
        kept.owned (fun _ _ => ⟨rfl, rfl, rfl⟩) (kept.own_unpopped source none shorter)⟩
  | first =>
    cases stepped
    exact ⟨_, _, kept.unchanged source rfl rfl⟩
  | isEmpty =>
    cases stepped
    exact ⟨_, _, kept.unchanged source rfl rfl⟩

/-- **A step of `signal_all`.** -/
theorem Kept.advance (stepped : move state thread .advance = some next) :
    ∃ pending' spot', Kept next (record.note state thread .advance) pending' spot' := by
  have shape := (kept.own thread).shape
  rw [move] at stepped
  cases source : state.pc thread with
  | idle | locked | sealed => simp [source] at stepped
  | signalAll cur =>
    rw [source] at stepped shape
    obtain ⟨front, linked⟩ := shape
    have noted : record.note state thread .advance = record := by simp [Record.note, source]
    rw [noted]
    cases chain : pending thread with
    | nil =>
      rw [front, chain] at stepped
      cases stepped
      exact ⟨_, _, kept.goto rfl chain⟩
    | cons node rest =>
      rw [front, chain] at stepped
      cases stepped
      rw [chain] at linked
      exact ⟨_, _, kept.goto rfl ⟨rest, chain, linked.1, linked.2⟩⟩
  | takeWaker node cur =>
    rw [source] at stepped shape
    cases stepped
    have noted : record.note state thread .advance = record := by simp [Record.note, source]
    rw [noted]
    exact ⟨_, _, kept.goto rfl shape⟩
  | store node cur =>
    rw [source] at stepped
    cases stepped
    exact ⟨_, _, kept.storeValue source⟩

/-- **Every step.** -/
theorem Kept.preserved {label : Label κ τ ν} (stepped : step state label = some next) :
    ∃ pending' spot', Kept next (recorded record state label next) pending' spot' := by
  cases label with
  | write node link =>
    rw [step, Option.ite_none_right_eq_some] at stepped
    obtain ⟨freed, stepped⟩ := stepped
    cases stepped
    exact ⟨_, _, kept.write freed⟩
  | thread thread action =>
    cases action with
    | lock queue => exact ⟨_, _, kept.lock stepped⟩
    | advance => exact kept.advance stepped
    | operate op rounds =>
      cases source : state.pc thread with
      | locked queue chain =>
        rw [step, move, source] at stepped
        exact kept.operate source stepped
      | idle | sealed | signalAll | takeWaker | store => simp [step, move, source] at stepped
    | sealChain =>
      cases source : state.pc thread with
      | locked queue chain =>
        rw [step, move, source] at stepped
        cases stepped
        exact ⟨_, _, kept.sealChain source⟩
      | idle | sealed | signalAll | takeWaker | store => simp [step, move, source] at stepped
    | unlock =>
      cases source : state.pc thread with
      | sealed queue chain =>
        rw [step, move, source] at stepped
        cases stepped
        exact ⟨_, _, kept.unlock source⟩
      | idle | locked | signalAll | takeWaker | store => simp [step, move, source] at stepped

end

/-- **Every run.** -/
theorem kept_of_recorded (reach : Recorded state record) :
    ∃ pending spot, Kept state record pending spot := by
  refine System.ReachableBy.observed
    (fun state record => ∃ pending spot, Kept state record pending spot) ?_ ?_ reach
  · exact fun state init => ⟨_, _, .start init⟩
  · rintro state record label next - ⟨pending, spot, kept⟩ stepped -
    exact kept.preserved stepped

end Steps

end Kept

/-! ### What is signalled -/

section Exact

variable {κ τ ν : Type} [DecidableEq κ] [DecidableEq τ] [DecidableEq ν] {state next : State κ τ ν}
  {record : Record κ τ ν} {thread : τ}

/-- The node that the next access of `signal_all` goes to. -/
def Pc.visits : Pc κ ν → Option ν
  | .signalAll cur => cur
  | .takeWaker node _ | .store node _ => some node
  | .idle | .locked _ _ | .sealed _ _ => none

/-- The steps of its own that a thread needs to end `signal_all`. -/
def remaining (record : Record κ τ ν) (state : State κ τ ν) (thread : τ) : ℕ :=
  let left := (record.popped thread).length - (record.signalled thread).length
  match state.pc thread with
  | .signalAll _ => 3 * left + 1
  | .takeWaker _ _ => 3 * left
  | .store _ _ => 3 * left - 1
  | .idle | .locked _ _ | .sealed _ _ => 0

/-- The steps of others, and of the owners of nodes. -/
def Label.others (thread : τ) : Label κ τ ν → Prop
  | .thread other _ => other ≠ thread
  | .write _ _ => True

/-- **The chain of a thread is exact.** -/
structure Exact (state : State κ τ ν) (record : Record κ τ ν) (thread : τ) : Prop where
  /-- What was popped is signalled from the front, in order and once each. -/
  order : record.signalled thread <+: record.popped thread
  once : (record.popped thread).Nodup
  /-- When the loop has ended, all of it is signalled. -/
  ended : state.pc thread = .signalAll none → record.signalled thread = record.popped thread
  /-- What the loop reads or writes is the next node, which is not signalled yet and in no queue. -/
  visits : ∀ node, (state.pc thread).visits = some node →
    record.signalled thread ++ [node] <+: record.popped thread ∧ node ∉ record.signalled thread ∧
      state.free node = false ∧ ∀ queue, node ∉ record.entries queue
  /-- What `seal` writes to is the node that was popped last, which is in no queue. -/
  seals : ∀ queue chain, state.pc thread = .locked queue chain →
    chain.last = (record.popped thread).getLast? ∧ ∀ last, chain.last = some last →
      ∀ queue, last ∉ record.entries queue
  /-- The loop goes on, and whatever others do it needs no more steps than before. -/
  continues : remaining record state thread ≠ 0 → ∃ next, step state (.thread thread .advance) =
    some next ∧
    remaining (recorded record state (.thread thread .advance) next) next thread <
      remaining record state thread
  undisturbed : ∀ label next, label.others thread → step state label = some next →
    remaining (recorded record state label next) next thread = remaining record state thread

/-- Others do not move a thread. -/
theorem step_others (record : Record κ τ ν) {label : Label κ τ ν} (others : label.others thread)
    (stepped : step state label = some next) : next.pc thread = state.pc thread ∧
      (recorded record state label next).popped thread = record.popped thread ∧
      (recorded record state label next).signalled thread = record.signalled thread := by
  cases label with
  | write node link =>
    rw [step, Option.ite_none_right_eq_some] at stepped
    obtain ⟨-, stepped⟩ := stepped
    cases stepped
    exact ⟨rfl, rfl, rfl⟩
  | thread other action =>
    have apart : thread ≠ other := Ne.symm others
    cases action with
    | lock queue =>
      rw [step, move, Option.ite_none_right_eq_some] at stepped
      obtain ⟨-, stepped⟩ := stepped
      cases stepped
      simp [recorded, Record.note, apart]
    | operate op rounds =>
      cases source : state.pc other with
      | locked queue chain =>
        rw [step, move, source] at stepped
        change operate state other queue chain op rounds = some next at stepped
        rw [operate, Option.ite_none_right_eq_some] at stepped
        obtain ⟨result, -, rfl⟩ := Option.map_eq_some_iff.mp stepped.2
        refine ⟨?_, by simp [recorded, Record.note, source, apart], by simp [recorded, Record.note,
          source]⟩
        unfold settle
        split <;> simp [apart]
      | idle | sealed | signalAll | takeWaker | store => simp [step, move, source] at stepped
    | sealChain | unlock =>
      cases source : state.pc other <;>
        simp only [step, move, source, reduceCtorEq, Option.some.injEq] at stepped
      subst stepped
      simp [recorded, Record.note, apart]
    | advance =>
      cases source : state.pc other <;>
        simp only [step, move, source, reduceCtorEq, Option.some.injEq] at stepped <;>
        subst stepped
      case signalAll cur => cases cur <;> simp [recorded, Record.note, source, apart, signalAll]
      all_goals simp [recorded, Record.note, source, apart, storeValue]

section

variable {pending : τ → List ν} {spot : ν → Spot κ τ}

/-- The node that `signal_all` is at is the next one of its chain. -/
theorem Kept.visited (kept : Kept state record pending spot) {node : ν}
    (visited : (state.pc thread).visits = some node) : ∃ rest, pending thread = node :: rest := by
  have shape := (kept.own thread).shape
  cases source : state.pc thread with
  | idle | locked | sealed =>
    rw [source] at visited
    cases visited
  | signalAll cur =>
    rw [source] at visited shape
    have front : (pending thread).head? = some node := shape.1.symm.trans visited
    exact ⟨_, List.eq_cons_of_mem_head? front⟩
  | takeWaker other cur | store other cur =>
    rw [source] at visited shape
    cases visited
    exact ⟨shape.choose, shape.choose_spec.1⟩

/-- A node of a chain is in no queue, and not with its owner. -/
theorem Kept.chain_apart (kept : Kept state record pending spot) {node : ν}
    (inside : node ∈ pending thread) :
    state.free node = false ∧ ∀ queue, node ∉ record.entries queue := by
  have chained := (kept.own thread).chained node inside
  refine ⟨Bool.eq_false_iff.mpr fun freed => ?_, fun queue queued => ?_⟩
  · have owner := kept.owned node freed
    rw [chained] at owner
    cases owner
  · have queued := kept.queued queue node queued
    rw [chained] at queued
    cases queued

/-- **The loop goes on.** -/
theorem Kept.continues (kept : Kept state record pending spot)
    (unfinished : remaining record state thread ≠ 0) :
    ∃ next, step state (.thread thread .advance) = some next ∧
      remaining (recorded record state (.thread thread .advance) next) next thread <
        remaining record state thread := by
  have own := kept.own thread
  have left : (record.popped thread).length - (record.signalled thread).length =
      (pending thread).length := by
    rw [own.split, List.length_append]
    omega
  unfold remaining at unfinished
  cases source : state.pc thread with
  | idle | locked | sealed => simp [source] at unfinished
  | signalAll cur =>
    refine ⟨_, by rw [step, move, source], ?_⟩
    cases cur <;> simp [remaining, recorded, Record.note, source, signalAll]
  | takeWaker node cur =>
    obtain ⟨rest, chain⟩ :=
      kept.visited (show (state.pc thread).visits = some node by rw [source]; rfl)
    refine ⟨_, by rw [step, move, source], ?_⟩
    simp only [remaining, recorded, Record.note, source, State.goto, Function.update_self, left,
      chain, List.length_cons]
    omega
  | store node cur =>
    obtain ⟨rest, chain⟩ :=
      kept.visited (show (state.pc thread).visits = some node by rw [source]; rfl)
    refine ⟨_, by rw [step, move, source], ?_⟩
    simp only [remaining, recorded, Record.note, source, PoppedChain.storeValue, State.goto,
      Function.update_self, List.length_append, List.length_singleton]
    rw [chain, List.length_cons] at left
    omega

end

/-- **Popped chains are exact**, whatever the other threads and the owners of the nodes do. -/
theorem chain_exact (reach : Recorded state record) (thread : τ) :
    (∀ queue, Represents (state.heap queue) (record.entries queue)) ∧
    Exact state record thread := by
  obtain ⟨pending, spot, kept⟩ := kept_of_recorded reach
  have own := kept.own thread
  refine ⟨kept.queue, ⟨_, own.split.symm⟩, own.nodup, fun source => ?_, fun node visited => ?_,
    fun queue chain source => ?_, kept.continues, fun label next others stepped => ?_⟩
  · have shape := own.shape
    rw [source] at shape
    rw [own.split, List.head?_eq_none_iff.mp shape.1.symm, List.append_nil]
  · obtain ⟨rest, chain⟩ := kept.visited visited
    have split : record.popped thread = record.signalled thread ++ node :: rest := chain ▸ own.split
    refine ⟨⟨rest, by rw [split]; simp⟩, fun signalled => ?_,
      kept.chain_apart (chain ▸ List.mem_cons_self)⟩
    have nodup := own.nodup
    rw [split] at nodup
    exact (List.nodup_append.mp nodup).2.2 node signalled node List.mem_cons_self rfl
  · have shape := own.shape
    rw [source] at shape own
    have split : record.popped thread = pending thread := by
      rw [own.split, own.early queue rfl, List.nil_append]
    rw [shape.2.1, split]
    exact ⟨rfl, fun last ends => (kept.chain_apart (List.mem_of_getLast? ends)).2⟩
  · obtain ⟨pc, popped, signalled⟩ := step_others record others stepped
    simp only [remaining, pc, popped, signalled]

/-- Three nodes are pushed and two of them popped. When the first is signalled its owner links it to
the third, takes that back and pushes it again, before the second is signalled. -/
def recycles : List (Label (Fin 1) (Fin 2) (Fin 3)) :=
  [.thread 1 (.lock 0), .thread 1 (.operate (.push 0) 0), .thread 1 (.operate (.push 1) 0),
    .thread 1 (.operate (.push 2) 0), .thread 1 .sealChain, .thread 1 .unlock, .thread 1 .advance,
    .thread 0 (.lock 0), .thread 0 (.operate .pop 0), .thread 0 (.operate .pop 0),
    .thread 0 .sealChain, .thread 0 .unlock, .thread 0 .advance, .thread 0 .advance,
    .thread 0 .advance, .write 0 (some 2), .write 0 none, .thread 1 (.lock 0),
    .thread 1 (.operate (.push 0) 0), .thread 1 .sealChain, .thread 1 .unlock, .thread 0 .advance,
    .thread 0 .advance, .thread 0 .advance]

/-- The first two nodes are signalled, and the first is in the queue again, behind the third. -/
theorem chain_exact_recycles :
    ∃ (state : State (Fin 1) (Fin 2) (Fin 3)) (record : Record (Fin 1) (Fin 2) (Fin 3)),
    Recorded state record ∧ state.pc 0 = .signalAll none ∧ record.entries 0 = [2, 0] ∧
      record.signalled 0 = [0, 1] ∧ Exact state record 0 := by
  have init : (machine (Fin 1) (Fin 2) (Fin 3)).init
      ⟨fun _ => SignalQueue.new, fun _ => none, fun _ => none, fun _ => true, fun _ => .idle⟩ :=
    ⟨fun _ => rfl, fun _ => rfl, fun _ => rfl, fun _ => rfl⟩
  obtain ⟨state, record, reach, ended⟩ :=
    System.exists_observed_of_run (machine (Fin 1) (Fin 2) (Fin 3))
    Record.empty recorded
      (fun state record => decide (state.pc 0 = .signalAll none ∧ record.entries 0 = [2, 0] ∧
      record.signalled 0 = [0, 1])) init recycles (by decide +kernel)
  obtain ⟨loop, list, signalled⟩ := of_decide_eq_true ended
  exact ⟨state, record, reach, loop, list, signalled, (chain_exact reach 0).2⟩

end Exact

end PoppedChain

end Xutex
