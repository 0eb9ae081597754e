/-
**The queues as they lie in memory.**

The machine keeps the contents of a queue as a list. In memory a queue is two pointers, and the list
runs through the links of the nodes, all of them shared by all the queues. `Heaps` is that memory,
kept beside a run: every step does there what its operation does to the pointers and to the links.

* `operation` — the operation of `SignalQueue` in a step; `operation_run` — it does to the list what
  `Op.run` says.
* `Drawn` — **every queue there is lies in memory as the list that the machine has for it**;
  `drawn_of_reachable`.
-/

import Xutex.Recycling.Places

set_option linter.unusedSectionVars false

namespace Xutex.Recycling

open Concurrency Mutex PointerWidth
open SignalQueue (Op Answer Heap Represents perform)

/-- The pointers of the queues and the links of the nodes. -/
structure Heaps (ι : Type) where
  queues : ℕ → SignalQueue ι
  next : ι → Option ι

section Operations

variable {κ ω ι : Type} [DecidableEq κ] [DecidableEq ω] [DecidableEq ι]

/-- The operation in a step of a mutex. -/
def mutexOperation (party : ι) : Mutex.Move → Mutex.Pc ι → Option (ℕ × Op ι)
  | .advance, .push _ ptr => some (ptr, .push party)
  | .advance, .cancelRemove ptr => some (ptr, .remove party)
  | .advance, .unlockPop ptr => some (ptr, .pop)
  | _, _ => none

/-- The operation in a step of a wait queue. -/
def queueOperation : Queue.Move ι → Queue.Pc → Option (ℕ × Op ι)
  | .withQueue op, .locked ptr => some (ptr, op)
  | .unlock, .locked ptr => some (ptr, .isEmpty)
  | _, _ => none

/-- The operation in a step of the program. -/
def operation (home : ι → κ ⊕ ω) (state : State κ ω ι) : Label ι → Option (ℕ × Op ι)
  | .mutex party move =>
    match home party with
    | .inl index => mutexOperation party move ((state.mutex index).pc party)
    | .inr _ => none
  | .queue party move =>
    match home party with
    | .inl _ => none
    | .inr index => queueOperation move ((state.queue index).pc party)
  | .initPool _ | .allocate _ _ | .deallocate _ => none

/-- The queues that are made in a step. -/
def made (state : State κ ω ι) : Label ι → List ℕ
  | .initPool fresh => fresh
  | .allocate _ fresh => if state.pool = some [] then [fresh] else []
  | .mutex _ _ | .queue _ _ | .deallocate _ => []

namespace Heaps

/-- One of the queues, with all the links. -/
def heap (heaps : Heaps ι) (ptr : ℕ) : Heap ι := ⟨heaps.queues ptr, heaps.next⟩

/-- The owner of a node that is to be pushed has made it, with no link. -/
def prepare (heaps : Heaps ι) : Op ι → Heaps ι
  | .push node => { heaps with next := Function.update heaps.next node none }
  | _ => heaps

/-- An operation is done to one of the queues; a queue of `length` nodes is searched in one round
more. -/
def perform (heaps : Heaps ι) (length ptr : ℕ) (op : Op ι) : Heaps ι :=
  match SignalQueue.perform ((heaps.prepare op).heap ptr) (length + 1) op with
  | some (heap, _) => ⟨Function.update heaps.queues ptr heap.queue, heap.next⟩
  | none => heaps

end Heaps

/-- **The memory beside a run.** -/
def redraw (home : ι → κ ⊕ ω) (heaps : Heaps ι) (state : State κ ω ι) (label : Label ι)
    (_ : State κ ω ι) : Heaps ι :=
  match operation home state label with
  | some (ptr, op) => heaps.perform (state.memory ptr).length ptr op
  | none =>
    { heaps with queues := fun ptr => if ptr ∈ made state label then .new else heaps.queues ptr }

end Operations

/-! ### An operation on one of the lists -/

section Steps

variable {κ ω ι : Type} [DecidableEq κ] [DecidableEq ω] [DecidableEq ι] [Fintype ι]
  {width : PointerWidth}
  {parallelism : ℕ} {home : ι → κ ⊕ ω} {state next : State κ ω ι} {status : κ ⊕ ω → Status ι}
  {place : ℕ → Option (Place κ ω ι)} {label : Label ι} {party : ι} {ptr : ℕ} {op : Op ι}

/-- What an operation in a step does to the lists. -/
structure Operates (state next : State κ ω ι) (ptr : ℕ) (op : Op ι) : Prop where
  memory : next.memory = Function.update state.memory ptr (op.run (state.memory ptr)).1
  boxes : next.boxes = state.boxes
  box : ptr ∈ state.boxes
  /-- A node that is pushed is in no queue. -/
  fresh : ∀ node, op = .push node → ∀ other, node ∉ state.memory other

section

variable (settled : Settled width home state status place)
include settled

/-- The queue of a primitive has been made. -/
theorem Settled.box {primitive : κ ⊕ ω} (mine : (status primitive).ptr = some ptr) :
    ptr ∈ state.boxes :=
  (settled.boxed ptr).mpr (by rw [(settled.installed primitive ptr).mp mine]; rintro ⟨⟩)

/-- A node of a primitive that is not in its queue is in none. -/
theorem Settled.unlinked {node : ι} (mine : (status (home node)).ptr = some ptr)
    (outside : node ∉ state.memory ptr) (other : ℕ) : node ∉ state.memory other := by
  intro linked
  have placed := (settled.installed (home node) other).mpr (settled.homed other node linked)
  rw [mine] at placed
  cases placed
  exact outside linked

theorem mutexStep_operates {move : Mutex.Move}
    (stepped : mutexStep width home state party move = some next)
    (operates : operation home state (.mutex party move) = some (ptr, op)) :
    Operates state next ptr op := by
  unfold mutexStep at stepped
  split at stepped
  · cases stepped
  · rename_i index owner answered
    split at stepped
    · obtain ⟨after, moved, rfl⟩ := Option.map_eq_some_iff.mp stepped
      have owned : Owned width (state.mutexAt index) (status (.inl index)) :=
        settled.fits (.inl index)
      have described := owned.toDescribed
      simp only [operation, owner] at operates
      have held (known : statusAt party ((state.mutexAt index).pc party) = some (.held party ptr)) :
          (status (home party)).ptr = some ptr := by
        rw [owner, described.eq_of_statusAt known]
        rfl
      unfold mutexOperation at operates
      split at operates
      · rename_i mode here source
        cases operates
        have mine :=
          held (by rw [show (state.mutexAt index).pc party = .push mode ptr from source]; rfl)
        have result : after = Mutex.push (state.mutexAt index) party mode ptr := by
          have source : (state.mutexAt index).pc party = .push mode ptr := source
          simpa [Mutex.step, Mutex.advance, source] using moved.symm
        refine ⟨by rw [result]; rfl, rfl, settled.box mine, fun node same => ?_⟩
        cases same
        refine settled.unlinked mine fun linked => ?_
        -- a node in the queue is given away, and its owner is not pushing it
        have status_eq : status (.inl index) = .held party ptr :=
          described.eq_of_statusAt
            (by rw [show (state.mutexAt index).pc party = .push mode ptr from source]; rfl)
        have queued :
            party ∈ ((state.mutexAt index).waiters (status (.inl index))).queue.entries := by
          rw [status_eq]
          exact linked
        have waits := (described.waiting.queued queued).1
        have source : ((state.mutexAt index).waiters (status (.inl index))).pc party =
            .push mode ptr := source
        rw [Discipline.Waits, source] at waits
        cases waits
      · rename_i here source
        cases operates
        have source : (state.mutexAt index).pc party = .cancelRemove ptr := source
        have mine := held (by rw [source]; rfl)
        have result : after = Mutex.cancelRemove (state.mutexAt index) party ptr := by
          simpa [Mutex.step, Mutex.advance, source] using moved.symm
        exact ⟨by rw [result]; rfl, rfl, settled.box mine, (by rintro _ ⟨⟩)⟩
      · rename_i here source
        cases operates
        have source : (state.mutexAt index).pc party = .unlockPop ptr := source
        have mine := held (by rw [source]; rfl)
        have result : after = Mutex.unlockPop (state.mutexAt index) party ptr := by
          simpa [Mutex.step, Mutex.advance, source] using moved.symm
        refine ⟨?_, rfl, settled.box mine, (by rintro _ ⟨⟩)⟩
        show after.queues = Function.update state.memory ptr (state.memory ptr).tail
        have contents : (state.mutexAt index).queues ptr = state.memory ptr := rfl
        rw [result, Mutex.unlockPop]
        split
        · rename_i empty
          rw [← contents, empty, List.tail_nil, ← empty, contents, Function.update_eq_self]
          rfl
        · rename_i node rest front
          rw [← contents, front]
          rfl
      · cases operates
    · cases stepped
  · cases stepped

theorem queueStep_operates {move : Queue.Move ι}
    (stepped : queueStep width home state party move = some next)
    (operates : operation home state (.queue party move) = some (ptr, op)) :
    Operates state next ptr op := by
  unfold queueStep at stepped
  split at stepped
  · cases stepped
  · rename_i index owner
    split at stepped
    · rename_i guard
      obtain ⟨after, moved, rfl⟩ := Option.map_eq_some_iff.mp stepped
      have described : Queue.Described width (state.queueAt index) (status (.inr index)) :=
        settled.fits (.inr index)
      simp only [operation, owner] at operates
      unfold queueOperation at operates
      split at operates
      · rename_i here source
        cases operates
        have source : (state.queueAt index).pc party = .locked ptr := source
        have held : status (.inr index) = .held party ptr := described.here source
        have mine : (status (.inr index)).ptr = some ptr := by
          rw [held]
          rfl
        simp only [Queue.step, Queue.begin, source] at moved
        unfold Queue.withQueue at moved
        dsimp only at moved
        split at moved
        · rename_i node
          split at moved <;> cases moved
          rename_i outside
          refine ⟨rfl, rfl, settled.box mine, fun pushed same => ?_⟩
          cases same
          have homed : home node = .inr index := of_decide_eq_true guard.2
          exact settled.unlinked (by rw [homed]; exact mine) outside
        · rename_i other
          cases moved
          exact ⟨rfl, rfl, settled.box mine, fun node same => absurd same (other node)⟩
      · rename_i here source
        cases operates
        have source : (state.queueAt index).pc party = .locked ptr := source
        have held : status (.inr index) = .held party ptr := described.here source
        have mine : (status (.inr index)).ptr = some ptr := by
          rw [held]
          rfl
        have result : after = Queue.unlock (state.queueAt index) party ptr := by
          simpa [Queue.step, Queue.begin, source] using moved.symm
        refine ⟨?_, rfl, settled.box mine, (by rintro _ ⟨⟩)⟩
        rw [result]
        exact (Function.update_eq_self ..).symm
      · cases operates
    · cases stepped

/-- **The operation in a step** is one on the list of a queue there is. -/
theorem step_operates (stepped : step width parallelism home state label = some next)
    (operates : operation home state label = some (ptr, op)) : Operates state next ptr op := by
  cases label with
  | mutex party move => exact mutexStep_operates settled stepped operates
  | queue party move => exact queueStep_operates settled stepped operates
  | initPool | allocate | deallocate => cases operates

end

/-- A step of a mutex without an operation leaves the lists alone. -/
theorem mutex_silent {before after : Mutex.State ι} {move : Mutex.Move}
    (moved : Mutex.step width before (party, move) = some after)
    (answered : ∀ ptr, move ≠ .allocate ptr)
    (silent : mutexOperation party move (before.pc party) = none) :
    after.queues = before.queues := by
  cases step_access moved with
  | allocates mode ptr => exact absurd rfl (answered ptr)
  | pushes mode ptr source => simp [mutexOperation, source] at silent
  | removes ptr source => simp [mutexOperation, source] at silent
  | pops ptr node rest source => simp [mutexOperation, source] at silent
  | quiet word queues => exact queues
  | acquires source free word queues => exact queues
  | claims mode source found word queues => exact queues
  | tags ptr source found word queues => exact queues
  | empties ptr source none word queues => exact queues
  | stores ptr source word queues => exact queues
  | frees ptr source word queues => exact queues
  | unlocks source found word queues => exact queues
  | signals node source word queues => exact queues

/-- A step of a wait queue without an operation leaves the lists alone. -/
theorem queue_silent {before after : Queue.State ι} {move : Queue.Move ι}
    (moved : Queue.step width before (party, move) = some after)
    (silent : queueOperation move (before.pc party) = none) : after.queues = before.queues := by
  cases move <;> simp only [Queue.step, Queue.begin] at moved
  case advance =>
    cases source : before.pc party <;>
      simp only [Queue.advance, source, Option.some.injEq, reduceCtorEq] at moved <;> subst moved
    case check => unfold Queue.check; split <;> rfl
    case init => unfold Queue.init; split <;> rfl
    case tag => unfold Queue.tag; split <;> rfl
    all_goals rfl
  case lock =>
    split at moved <;> cases moved
    rfl
  case withQueue op =>
    split at moved
    · rename_i ptr source
      simp [queueOperation, source] at silent
    · cases moved
  case unlock =>
    split at moved
    · rename_i ptr source
      simp [queueOperation, source] at silent
    · cases moved

/-- What a step without an operation does to the lists: those of the queues it makes are empty. -/
structure Silent (state next : State κ ω ι) (label : Label ι) : Prop where
  memory : ∀ ptr, next.memory ptr = if ptr ∈ made state label then [] else state.memory ptr
  boxes : ∀ ptr, ptr ∈ next.boxes ↔ ptr ∈ made state label ∨ ptr ∈ state.boxes

theorem step_silent (stepped : step width parallelism home state label = some next)
    (silent : operation home state label = none) : Silent state next label := by
  have same (memory : next.memory = state.memory) (boxes : next.boxes = state.boxes)
      (none : made state label = []) : Silent state next label := by
    refine ⟨fun ptr => ?_, fun ptr => ?_⟩
    · rw [none, if_neg List.not_mem_nil, memory]
    · simp [none, boxes]
  cases label with
  | initPool fresh =>
    change initPool width parallelism state fresh = some next at stepped
    unfold initPool at stepped
    split at stepped <;> cases stepped
    exact ⟨fun _ => rfl, fun _ => List.mem_append⟩
  | mutex party move =>
    change mutexStep width home state party move = some next at stepped
    unfold mutexStep at stepped
    split at stepped
    · cases stepped
    · rename_i index owner answered
      split at stepped
      · obtain ⟨after, moved, rfl⟩ := Option.map_eq_some_iff.mp stepped
        simp only [operation, owner] at silent
        exact same (mutex_silent moved answered silent) rfl rfl
      · cases stepped
    · cases stepped
  | queue party move =>
    change queueStep width home state party move = some next at stepped
    unfold queueStep at stepped
    split at stepped
    · cases stepped
    · rename_i index owner
      split at stepped
      · obtain ⟨after, moved, rfl⟩ := Option.map_eq_some_iff.mp stepped
        simp only [operation, owner] at silent
        exact same (queue_silent moved silent) rfl rfl
      · cases stepped
  | allocate party fresh =>
    change allocateQueue width home state party fresh = some next at stepped
    unfold allocateQueue at stepped
    split at stepped
    · cases stepped
    · rename_i ptr rest published
      obtain ⟨-, boxes, memory, -⟩ := install_rest stepped
      exact same memory boxes (by simp [made, published])
    · rename_i exhausted
      split at stepped
      · obtain ⟨-, boxes, memory, -⟩ := install_rest stepped
        have new : made state (.allocate party fresh) = [fresh] := by simp [made, exhausted]
        refine ⟨fun ptr => ?_, fun ptr => ?_⟩
        · rw [memory, new]
          show Function.update state.memory fresh [] ptr = _
          simp [Function.update_apply]
        · rw [boxes, new]
          simp
      · cases stepped
  | deallocate party =>
    change deallocateQueue state party = some next at stepped
    unfold deallocateQueue at stepped
    split at stepped <;> cases stepped
    exact same rfl rfl rfl

/-! ### The memory agrees with the lists -/

/-- **Every queue lies in memory as its list.** -/
def Drawn (heaps : Heaps ι) (state : State κ ω ι) : Prop :=
  ∀ ptr ∈ state.boxes, Represents (heaps.heap ptr) (state.memory ptr)

theorem represents_congr {heap : Heap ι} {entries : List ι} {links : ι → Option ι}
    (queue : Represents heap entries)
    (same : ∀ node ∈ entries, links node = heap.next node) :
    Represents ⟨heap.queue, links⟩ entries :=
  ⟨queue.first, queue.last, queue.nodup, queue.linked.congr same⟩

/-- Two queues have no node in common. -/
theorem Settled.disjoint (settled : Settled width home state status place) {other : ℕ} {node : ι}
    (here : node ∈ state.memory ptr) (there : node ∈ state.memory other) : other = ptr := by
  have mine := (settled.installed (home node) ptr).mpr (settled.homed ptr node here)
  rw [(settled.installed (home node) other).mpr (settled.homed other node there)] at mine
  exact Option.some.inj mine

theorem Heaps.prepare_queues (heaps : Heaps ι) (op : Op ι) :
    (heaps.prepare op).queues = heaps.queues := by
  cases op <;> rfl

/-- What the owner of a node does before it is pushed does not matter to the queues. -/
theorem Drawn.prepared {heaps : Heaps ι} (drawn : Drawn heaps state)
    (operates : Operates state next ptr op)
    {other : ℕ} (box : other ∈ state.boxes) :
    Represents ((heaps.prepare op).heap other) (state.memory other) := by
  show Represents ⟨(heaps.prepare op).queues other, (heaps.prepare op).next⟩ _
  rw [heaps.prepare_queues op]
  refine represents_congr (drawn other box) fun node linked => ?_
  cases op with
  | push new =>
    have different : node ≠ new := fun same => operates.fresh new rfl other (same ▸ linked)
    exact Function.update_of_ne different ..
  | pop | remove | first | isEmpty => rfl

theorem Drawn.fresh {heaps : Heaps ι} (operates : Operates state next ptr op) :
    SignalQueue.Fresh ((heaps.prepare op).heap ptr) (state.memory ptr) op := by
  rintro node rfl
  exact ⟨operates.fresh node rfl ptr, Function.update_self ..⟩

/-- **An operation does to the memory what it does to the list.** -/
theorem Drawn.operate {heaps : Heaps ι} (drawn : Drawn heaps state)
    (settled : Settled width home state status place)
    (operates : Operates state next ptr op) :
    Drawn (heaps.perform (state.memory ptr).length ptr op) next := by
  obtain ⟨heap, performed, represents, frame⟩ :=
    SignalQueue.perform_represents (drawn.prepared operates operates.box)
    (Drawn.fresh operates) (Nat.lt_succ_self _)
  intro other box
  rw [operates.boxes] at box
  have result : heaps.perform (state.memory ptr).length ptr op =
      ⟨Function.update heaps.queues ptr heap.queue, heap.next⟩ := by
    unfold Heaps.perform
    rw [performed]
  rw [result, operates.memory]
  by_cases same : other = ptr
  · subst same
    rw [Function.update_self]
    have view : Heaps.heap ⟨Function.update heaps.queues other heap.queue, heap.next⟩ other =
        heap := by
      simp [Heaps.heap]
    rw [view]
    exact represents
  · rw [Function.update_of_ne same]
    have view : Heaps.heap ⟨Function.update heaps.queues ptr heap.queue, heap.next⟩ other =
        ⟨heaps.queues other, heap.next⟩ := by
      simp [Heaps.heap, same]
    rw [view, ← heaps.prepare_queues op]
    refine represents_congr (drawn.prepared operates box) fun node linked => ?_
    exact frame node fun here => same (settled.disjoint here linked)

theorem Drawn.silent {heaps : Heaps ι} (drawn : Drawn heaps state)
    (silent : Silent state next label) :
    Drawn { heaps with
      queues := fun ptr => if ptr ∈ made state label then .new else heaps.queues ptr } next := by
  intro ptr box
  rw [silent.memory ptr]
  by_cases new : ptr ∈ made state label
  · have view : Heaps.heap { heaps with
        queues := fun ptr => if ptr ∈ made state label then .new else heaps.queues ptr } ptr =
          ⟨.new, heaps.next⟩ := by
      simp [Heaps.heap, new]
    rw [if_pos new, view]
    exact .new heaps.next
  · have view : Heaps.heap { heaps with
        queues := fun ptr => if ptr ∈ made state label then .new else heaps.queues ptr } ptr =
          heaps.heap ptr := by
      simp [Heaps.heap, new]
    rw [if_neg new, view]
    exact drawn ptr (((silent.boxes ptr).mp box).resolve_left new)

/-- **Every step keeps the memory in agreement with the lists.** -/
theorem step_drawn {heaps : Heaps ι} (drawn : Drawn heaps state)
    (settled : Settled width home state status place)
    (stepped : step width parallelism home state label = some next) :
    Drawn (redraw home heaps state label next) next := by
  unfold redraw
  split
  · rename_i ptr op operates
    exact drawn.operate settled (step_operates settled stepped operates)
  · rename_i silent
    exact drawn.silent (step_silent stepped silent)

end Steps

end Xutex.Recycling
