/-
**What the pointer of a wait queue stands for.**

The pointer has the values of the mutex word, without `LOCKED`: the same `Status` says which thread
works on which queue, and `Encodes` relates it to the pointer. A published queue of a wait queue is
never empty, which the mutex does not promise.

* `Described` — **the invariant**: the status says what the pointer, the queue and every program
  point mean.
* `Change`, `step_steps` — what one step does to the status: nothing, a claim, a tag, work on the
  contents, a store, or the store that gives the empty queue away.
* `Described.elsewhere` — only the contents of the queue of the status matter.
-/

import Xutex.Mutex.Waiting
import Xutex.Recycling.Queue

set_option linter.unusedSectionVars false

namespace Xutex.Mutex

/-- The queue a status is about. -/
def Status.ptr {ι : Type} : Status ι → Option ℕ
  | .unlocked | .locked | .updating _ => none
  | .held _ ptr | .queue ptr => some ptr

end Xutex.Mutex

namespace Xutex.Recycling.Queue

open Mutex (Status Encodes)
open PointerWidth
open SignalQueue (Op)

variable {ι : Type} [DecidableEq ι]

/-! ### The program points -/

/-- The thread has the queue, or the right to make one. -/
def lockedAt : Pc → Bool
  | .allocate | .locked _ | .onEmpty _ | .unpublish _ | .publish _ => true
  | _ => false

/-- The holder knows the status, and after the first step of `unlock` also whether the queue is
empty; a pointer about to be tagged is a queue's. -/
def LocalAt (width : PointerWidth) (queues : ℕ → List ι) (status : Status ι) (party : ι) : Pc → Prop
  | .allocate => status = .updating party
  | .locked ptr => status = .held party ptr
  | .onEmpty ptr | .unpublish ptr => status = .held party ptr ∧ queues ptr = []
  | .publish ptr => status = .held party ptr ∧ queues ptr ≠ []
  | .tag _ ptr => width.IsQueue ptr
  | _ => True

/-- **The invariant**: the status says what the pointer, the queue and every program point mean. -/
structure Described (width : PointerWidth) (state : State ι) (status : Status ι) : Prop where
  encodes : Encodes width state.word status
  /-- The pointer is never `LOCKED`. -/
  unlocked : status ≠ .locked
  known : ∀ party, LocalAt width state.queues status party (state.pc party)
  lock : ∀ party, lockedAt (state.pc party) = true ↔ status.holder = some party
  /-- A published queue is never empty. -/
  filled : ∀ ptr, status = .queue ptr → state.queues ptr ≠ []
  nodup : (status.entries state.queues).Nodup

/-- **What one step does to the status**, to the contents of the queues and to the program point of
its thread. -/
inductive Change (width : PointerWidth) (state next : State ι) (party : ι) : Status ι → Status ι →
    Prop
  /-- The thread goes on without a queue. -/
  | quiet {status : Status ι} (word : next.word = state.word) (queues : next.queues = state.queues)
      (before : lockedAt (state.pc party) = false) (after : lockedAt (next.pc party) = false) :
      Change width state next party status status
  /-- The CAS `NULL -> UPDATING` succeeds. -/
  | claims (source : state.pc party = .init) (found : state.word = unlocked)
      (word : next.word = width.updating) (queues : next.queues = state.queues)
      (target : next.pc party = .allocate) :
        Change width state next party .unlocked (.updating party)
  /-- The CAS that tags the queue succeeds. -/
  | tags {alloc : Bool} (ptr : ℕ) (source : state.pc party = .tag alloc ptr)
    (found : state.word = ptr)
      (word : next.word = tagPointer ptr) (queues : next.queues = state.queues)
      (target : next.pc party = .locked ptr) :
        Change width state next party (.queue ptr) (.held party ptr)
  /-- The holder works on the contents, or decides how to unlock. -/
  | works (ptr : ℕ) (entries : List ι) (word : next.word = state.word)
      (queues : next.queues = Function.update state.queues ptr entries)
      (before : lockedAt (state.pc party) = true) (after : lockedAt (next.pc party) = true) :
      Change width state next party (.held party ptr) (.held party ptr)
  /-- The store that publishes the queue. -/
  | stores (ptr : ℕ) (source : state.pc party = .publish ptr) (word : next.word = ptr)
      (queues : next.queues = state.queues) (target : next.pc party = .idle) :
      Change width state next party (.held party ptr) (.queue ptr)
  /-- The store that gives the empty queue away. -/
  | frees (ptr : ℕ) (source : state.pc party = .unpublish ptr) (empty : state.queues ptr = [])
      (word : next.word = unlocked) (queues : next.queues = state.queues)
      (target : next.pc party = .idle) : Change width state next party (.held party ptr) .unlocked

section Steps

variable {width : PointerWidth} {state next : State ι} {status status' : Status ι} {party : ι}
  {ptr : ℕ} {pc : Pc} {alloc : Bool}

theorem Described.here (described : Described width state status) (source : state.pc party = pc) :
    LocalAt width state.queues status party pc :=
  source ▸ described.known party

/-- What the other threads know outlives every change at the hands of the holder, or while there is
none. -/
theorem LocalAt.unmoved {queues queues' : ℕ → List ι} {other : ι}
    (known : LocalAt width queues status other pc)
    (free : status.holder = none ∨ status.holder = some party) (different : other ≠ party) :
    LocalAt width queues' status' other pc := by
  cases pc <;> simp only [LocalAt] at known ⊢ <;> try exact known
  all_goals
    first | obtain rfl := known | obtain ⟨rfl, -⟩ := known
    simp only [Status.holder, reduceCtorEq, Option.some.injEq, false_or] at free
    exact absurd free different

/-- A pointer the loop has read is null, is waited for, or is a queue. -/
theorem lockNext_known (encodes : Encodes width state.word status) (never : status ≠ .locked)
    (alloc : Bool) (party : ι) : lockedAt (lockNext width alloc state.word) = false ∧
      ∀ queues, LocalAt width queues status party (lockNext width alloc state.word) := by
  unfold lockNext
  split
  · cases alloc <;> exact ⟨rfl, fun _ => trivial⟩
  · rename_i present
    split
    · exact ⟨rfl, fun _ => trivial⟩
    · rename_i notUpdating
      split
      · exact ⟨rfl, fun _ => trivial⟩
      · rename_i untagged
        have notLocked : state.word ≠ width.locked := fun same => never (encodes.eq_locked same)
        exact ⟨rfl, fun _ => encodes.untagged present (not_or.mpr ⟨notUpdating, notLocked⟩)
          untagged⟩

/-! ### Every step keeps the invariant -/

/-- **A step keeps the invariant** when the thread's own point and the new contents are described
and the status changes at the hands of the holder, or while there is none. -/
theorem Described.turn (described : Described width state status)
    (moved : next.pc = Function.update state.pc party pc)
    (encodes : Encodes width next.word status') (never : status' ≠ .locked)
    (change : (next.queues = state.queues ∧ status' = status) ∨ status.holder = none ∨
      status.holder = some party)
    (known : LocalAt width next.queues status' party pc) (mine : lockedAt pc = true ↔
      status'.holder = some party)
    (others : ∀ other, other ≠ party → (status'.holder = some other ↔ status.holder = some other))
    (filled : ∀ ptr, status' = .queue ptr → next.queues ptr ≠ [])
    (nodup : (status'.entries next.queues).Nodup) : Described width next status' where
  encodes := encodes
  unlocked := never
  known other := by
    rw [moved]
    by_cases same : other = party
    · subst same
      rw [Function.update_self]
      exact known
    · rw [Function.update_of_ne same]
      rcases change with ⟨queues, rfl⟩ | free
      · rw [queues]
        exact described.known other
      · exact (described.known other).unmoved free same
  lock other := by
    rw [moved]
    by_cases same : other = party
    · subst same
      rw [Function.update_self]
      exact mine
    · rw [Function.update_of_ne same, others other same]
      exact described.lock other
  filled := filled
  nodup := nodup

/-- A step of a thread without a queue that touches neither the pointer nor a queue. -/
theorem Described.goto (described : Described width state status)
    (before : lockedAt (state.pc party) = false)
    (after : lockedAt pc = false) (known : LocalAt width state.queues status party pc) :
    Described width (state.goto party pc) status ∧
      Change width state (state.goto party pc) party status status := by
  have free : status.holder ≠ some party := fun holds => by
    rw [(described.lock party).mpr holds] at before
    cases before
  refine ⟨described.turn rfl described.encodes described.unlocked (.inl ⟨rfl, rfl⟩) known ?_
    (fun _ _ => .rfl)
    described.filled described.nodup, .quiet rfl rfl before (by simpa using after)⟩
  rw [after]
  exact ⟨(by rintro ⟨⟩), fun holds => absurd holds free⟩

theorem Described.lockNext (described : Described width state status) (alloc : Bool) (party : ι) :
    lockedAt (lockNext width alloc state.word) = false ∧
      ∀ queues, LocalAt width queues status party (lockNext width alloc state.word) :=
  lockNext_known described.encodes described.unlocked alloc party

/-- A step goes from one status to another. -/
abbrev Steps (width : PointerWidth) (state next : State ι) (party : ι) (status : Status ι) : Prop :=
  ∃ status', Described width next status' ∧ Change width state next party status status'

theorem check_steps (described : Described width state status) (source : state.pc party = .check) :
    Steps width state (check width state party) party status := by
  have before : lockedAt (state.pc party) = false := by
    rw [source]
    rfl
  unfold check
  split
  · exact ⟨status, described.goto before rfl trivial⟩
  · obtain ⟨after, known⟩ := described.lockNext false party
    exact ⟨status, described.goto before after (known _)⟩

theorem init_steps (described : Described width state status) (source : state.pc party = .init) :
    Steps width state (init width state party) party status := by
  unfold init
  split
  · rename_i free
    obtain rfl := described.encodes.unlocked_iff.mp free
    refine ⟨.updating party, described.turn rfl rfl (by rintro ⟨⟩) (.inr (.inl rfl)) rfl
      (by simp [lockedAt, Status.holder])
      (fun other different => ?_) (by rintro _ ⟨⟩) List.nodup_nil,
      .claims source free rfl rfl (by simp)⟩
    simp [Status.holder, Ne.symm different]
  · obtain ⟨after, known⟩ := described.lockNext true party
    exact ⟨status, described.goto (by rw [source]; rfl) after (known _)⟩

theorem tag_steps (described : Described width state status)
    (source : state.pc party = .tag alloc ptr) :
    Steps width state (tag width state party alloc ptr) party status := by
  have queue : width.IsQueue ptr := described.here source
  unfold tag
  split
  · rename_i found
    obtain rfl := described.encodes.eq_queue queue found
    refine ⟨.held party ptr, described.turn rfl ⟨queue, .inr rfl⟩ (by rintro ⟨⟩) (.inr (.inl rfl))
      rfl
      (by simp [lockedAt, Status.holder]) (fun other different => ?_) (by rintro _ ⟨⟩)
      described.nodup, .tags ptr source found rfl rfl (by simp)⟩
    simp [Status.holder, Ne.symm different]
  · obtain ⟨after, known⟩ := described.lockNext alloc party
    exact ⟨status, described.goto (by rw [source]; rfl) after (known _)⟩

/-- A step of the holder on the contents of its queue. -/
theorem Described.work {entries : List ι} (described : Described width state (.held party ptr))
    (locked : lockedAt pc = true) (nodup : entries.Nodup)
    (known : LocalAt width (Function.update state.queues ptr entries) (.held party ptr) party pc) :
    Steps width state
      ({ state with queues := Function.update state.queues ptr entries }.goto party pc) party
      (.held party ptr) := by
  refine ⟨.held party ptr, described.turn rfl described.encodes (by rintro ⟨⟩) (.inr (.inr rfl))
    known
    (by simp [locked, Status.holder]) (fun _ _ => .rfl) (by rintro _ ⟨⟩)
    (by simpa [Status.entries] using nodup),
    .works ptr entries rfl rfl ((described.lock party).mpr rfl) (by simpa using locked)⟩

/-- An operation of `SignalQueue` links no node twice. -/
theorem Op.run_nodup {entries : List ι} {op : Op ι} (nodup : entries.Nodup)
    (fresh : ∀ node, op = .push node → node ∉ entries) : (op.run entries).1.Nodup := by
  cases op with
  | push node =>
    exact List.nodup_append.mpr ⟨nodup, List.nodup_singleton _, fun old linked new same => by
      rintro rfl
      exact fresh node rfl (List.mem_singleton.mp same ▸ linked)⟩
  | pop => exact nodup.sublist (List.tail_sublist _)
  | remove node => exact nodup.erase node
  | first => exact nodup
  | isEmpty => exact nodup

section

variable (described : Described width state status)
include described

theorem withQueue_steps {op : Op ι} (source : state.pc party = .locked ptr)
    (stepped : withQueue state ptr op = some next) : Steps width state next party status := by
  obtain rfl : status = .held party ptr := described.here source
  have fresh : ∀ node, op = .push node → node ∉ state.queues ptr := by
    rintro node rfl linked
    simp [withQueue, linked] at stepped
  have result : next = { state with
      queues := Function.update state.queues ptr (op.run (state.queues ptr)).1 }.goto party
      (.locked ptr) := by
    have stays : Function.update state.pc party (.locked ptr) = state.pc := by
      rw [← source, Function.update_eq_self]
    unfold withQueue at stepped
    dsimp only at stepped
    split at stepped
    · split at stepped <;> cases stepped
      simp [stays]
    · cases stepped
      simp [stays]
  rw [result]
  exact described.work rfl (Op.run_nodup described.nodup fresh) rfl

theorem unlock_steps (source : state.pc party = .locked ptr) :
    Steps width state (unlock state party ptr) party status := by
  obtain rfl : status = .held party ptr := described.here source
  have same : Function.update state.queues ptr (state.queues ptr) = state.queues :=
    Function.update_eq_self ..
  have nodup : (state.queues ptr).Nodup := described.nodup
  have work (pc : Pc) (locked : lockedAt pc = true)
      (known : LocalAt width state.queues (.held party ptr) party pc) :
      Steps width state (state.goto party pc) party (.held party ptr) := by
    have steps := described.work locked nodup (by rw [same]; exact known)
    rwa [same] at steps
  unfold unlock
  split
  · rename_i empty
    exact work _ rfl ⟨rfl, List.isEmpty_iff.mp empty⟩
  · rename_i filled
    exact work _ rfl ⟨rfl, fun empty => filled (List.isEmpty_iff.mpr empty)⟩

theorem advance_steps (stepped : advance width state party = some next) :
    Steps width state next party status := by
  have here := described.known party
  cases source : state.pc party <;>
    simp only [advance, source, Option.some.injEq, reduceCtorEq] at stepped <;> subst stepped <;>
    rw [source] at here
  case load alloc =>
    obtain ⟨after, known⟩ := described.lockNext alloc party
    exact ⟨status, described.goto (by rw [source]; rfl) after (known _)⟩
  case check => exact check_steps described source
  case init => exact init_steps described source
  case tag => exact tag_steps described source
  case onEmpty ptr =>
    obtain ⟨rfl, empty⟩ := here
    have same : Function.update state.queues ptr (state.queues ptr) = state.queues :=
      Function.update_eq_self ..
    have nodup : (state.queues ptr).Nodup := described.nodup
    have known : LocalAt width (Function.update state.queues ptr (state.queues ptr))
        (.held party ptr) party (.unpublish ptr) := ⟨rfl, by rw [same]; exact empty⟩
    have steps := described.work rfl nodup known
    rwa [same] at steps
  case unpublish ptr =>
    obtain ⟨rfl, empty⟩ := here
    refine ⟨.unlocked, described.turn rfl rfl (by rintro ⟨⟩) (.inr (.inr rfl)) trivial
      (by simp [lockedAt, Status.holder])
      (fun other different => ?_) (by rintro _ ⟨⟩) List.nodup_nil, .frees ptr source empty rfl rfl
      (by simp)⟩
    simp [Status.holder, Ne.symm different]
  case publish ptr =>
    obtain ⟨rfl, filled⟩ := here
    refine ⟨.queue ptr, described.turn rfl ⟨described.encodes.1, rfl⟩ (by rintro ⟨⟩)
      (.inr (.inr rfl)) trivial
      (by simp [lockedAt, Status.holder]) (fun other different => ?_) (fun _ same => ?_)
      described.nodup, .stores ptr source rfl rfl (by simp)⟩
    · simp [Status.holder, Ne.symm different]
    · cases same
      exact filled

/-- **Every step goes from one status to another.** -/
theorem step_steps {label : Label ι} (stepped : step width state label = some next) :
    Steps width state next label.1 status := by
  obtain ⟨party, move⟩ := label
  cases move <;> simp only [step, begin] at stepped
  case advance => exact advance_steps described stepped
  case lock alloc =>
    split at stepped <;> cases stepped
    rename_i source
    exact ⟨status, described.goto (by rw [source]; rfl) rfl trivial⟩
  case withQueue op =>
    split at stepped
    · exact withQueue_steps described ‹_› stepped
    · cases stepped
  case unlock =>
    split at stepped <;> cases stepped
    exact unlock_steps described ‹_›

/-- The status is a function of the state. -/
theorem Described.unique (other : Described width state status') : status' = status := by
  have byHolder (holder : ι) (holds : status.holder = some holder) : status' = status := by
    have locked := (described.lock holder).mpr holds
    have known := described.known holder
    have known' := other.known holder
    revert locked known known'
    cases state.pc holder <;>
      simp only [lockedAt, LocalAt, reduceCtorEq, false_implies, true_implies]
    case allocate | locked =>
      rintro rfl rfl
      rfl
    all_goals
      rintro ⟨rfl, -⟩ ⟨rfl, -⟩
      rfl
  have encodes := described.encodes
  cases status with
  | unlocked => exact other.encodes.unlocked_iff.mp encodes
  | locked => exact absurd rfl described.unlocked
  | updating holder => exact byHolder holder rfl
  | held holder ptr => exact byHolder holder rfl
  | queue ptr => exact other.encodes.eq_queue encodes.1 encodes.2

end

/-- Only the thread of the label moves. -/
theorem step_rest {label : Label ι} {other : ι} (stepped : step width state label = some next)
    (different : other ≠ label.1) : next.pc other = state.pc other := by
  obtain ⟨party, move⟩ := label
  have moved (pc : Pc) (target : next.pc = Function.update state.pc party pc) :
      next.pc other = state.pc other := by
    rw [target]
    exact Function.update_of_ne different ..
  cases move <;> simp only [step, begin] at stepped
  case advance =>
    cases source : state.pc party <;>
      simp only [advance, source, Option.some.injEq, reduceCtorEq] at stepped <;> subst stepped
    case check => unfold check; split <;> exact Function.update_of_ne different ..
    case init => unfold init; split <;> exact Function.update_of_ne different ..
    case tag => unfold tag; split <;> exact Function.update_of_ne different ..
    all_goals exact Function.update_of_ne different ..
  case lock =>
    split at stepped <;> cases stepped
    exact moved _ rfl
  case unlock =>
    split at stepped <;> cases stepped
    exact moved _ rfl
  case withQueue op =>
    split at stepped
    · unfold withQueue at stepped
      dsimp only at stepped
      split at stepped
      · split at stepped <;> cases stepped
        rfl
      · cases stepped
        rfl
    · cases stepped

/-- The pool answers with an empty queue. -/
theorem Described.allocated (described : Described width state status)
    (source : state.pc party = .allocate)
    (queue : width.IsQueue ptr) (empty : state.queues ptr = []) :
    status = .updating party ∧
      Described width (state.goto party (.locked ptr)) (.held party ptr) := by
  obtain rfl : status = .updating party := described.here source
  refine ⟨rfl, described.turn rfl ⟨queue, .inl described.encodes⟩ (by rintro ⟨⟩) (.inr (.inr rfl))
    rfl (by simp [lockedAt, Status.holder]) (fun _ _ => .rfl) (by rintro _ ⟨⟩) ?_⟩
  simp [Status.entries, empty]

/-- **Only the contents of the queue of the status matter.** -/
theorem Described.elsewhere {queues : ℕ → List ι} (described : Described width state status)
    (same : ∀ ptr, status.ptr = some ptr → queues ptr = state.queues ptr) :
    Described width { state with queues := queues } status where
  encodes := described.encodes
  unlocked := described.unlocked
  known party := by
    have known := described.known party
    revert known
    cases state.pc party <;> simp only [LocalAt]
    case onEmpty | unpublish | publish =>
      rintro ⟨rfl, contents⟩
      exact ⟨rfl, by rw [same _ rfl]; exact contents⟩
    all_goals exact id
  lock := described.lock
  filled ptr published := by
    show queues ptr ≠ []
    rw [same ptr (by rw [published]; rfl)]
    exact described.filled ptr published
  nodup := by
    have entries : status.entries queues = status.entries state.queues := by
      cases status <;> first | rfl | exact same _ rfl
    show (status.entries queues).Nodup
    rw [entries]
    exact described.nodup

theorem Described.start (queues : ℕ → List ι) : Described width (start queues) .unlocked where
  encodes := rfl
  unlocked := (by rintro ⟨⟩)
  known _ := trivial
  lock _ := by simp [Queue.start, lockedAt, Status.holder]
  filled := (by rintro _ ⟨⟩)
  nodup := List.nodup_nil

end Steps

end Xutex.Recycling.Queue
