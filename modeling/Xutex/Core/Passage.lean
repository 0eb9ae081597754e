/-
**The passage of a node through a wait queue.**

An observer of the waiters counts, for every node, how often it was linked, unlinked by its owner,
popped and signalled, and remembers when it was linked last. It sees the queue and the chains,
before and after every step, and who moved.

* `Passage.record` — what the observer writes down at a step.
* `Passed` — **every linking has exactly one end**: a node was linked as often as it was unlinked or
  popped, but for the time it is still in the queue; it was popped as often as it was signalled, but
  for the time it is still in the chain of one signaler.
* `Ordered` — **the queue is in the order of linking.**
* `Passed.step`, `Ordered.step` — every effect of `Waiters` keeps both.
-/

import Xutex.Core.Waiters

set_option linter.unusedSectionVars false

namespace Xutex

open Concurrency Discipline

/-- What has been seen of the nodes. -/
structure Passage (ι : Type) where
  clock : ℕ
  /-- When the node was linked last. -/
  stamp : ι → ℕ
  pushed : ι → ℕ
  /-- Unlinked by its owner. -/
  removed : ι → ℕ
  /-- Unlinked by another party. -/
  popped : ι → ℕ
  /-- Out of the chain of its signaler. -/
  signalled : ι → ℕ

namespace Passage

variable {ι Pc : Type} [DecidableEq ι]

/-- Nothing has been seen. -/
def new : Passage ι := ⟨0, fun _ => 0, fun _ => 0, fun _ => 0, fun _ => 0, fun _ => 0⟩

/-- A step of `party` is seen. -/
def record (chain : Pc → List ι) (passage : Passage ι) (before after : Waiters ι Pc) (party : ι) :
    Passage ι where
  clock := passage.clock + 1
  stamp node :=
    if before.queue.entries.count node < after.queue.entries.count node then passage.clock else
      passage.stamp node
  pushed node :=
    passage.pushed node + (after.queue.entries.count node - before.queue.entries.count node)
  removed node := passage.removed node +
    if node = party then before.queue.entries.count node - after.queue.entries.count node else 0
  popped node := passage.popped node +
    if node = party then 0 else before.queue.entries.count node - after.queue.entries.count node
  signalled node := passage.signalled node +
    ((chain (before.pc party)).count node - (chain (after.pc party)).count node)

end Passage

namespace Discipline

variable {ι Pc : Type} [DecidableEq ι] (discipline : Discipline ι Pc)

/-- The node is popped and not yet signalled. -/
def Chained (waiters : Waiters ι Pc) (node : ι) :
    Prop := ∃ party, node ∈ discipline.chain (waiters.pc party)

/-- **Every linking has exactly one end.** -/
structure Passed (waiters : Waiters ι Pc) (passage : Passage ι) : Prop where
  linked : ∀ node, passage.pushed node =
    waiters.queue.entries.count node + passage.removed node + passage.popped node
  unsignalled : ∀ node, discipline.Chained waiters node →
    passage.popped node = passage.signalled node + 1
  signalled : ∀ node, ¬discipline.Chained waiters node →
    passage.popped node = passage.signalled node

/-- **The queue is in the order of linking.** -/
structure Ordered (waiters : Waiters ι Pc) (passage : Passage ι) : Prop where
  ordered : waiters.queue.entries.Pairwise fun first second =>
    passage.stamp first < passage.stamp second
  past : ∀ node ∈ waiters.queue.entries, passage.stamp node < passage.clock

variable {discipline} {before after : Waiters ι Pc} {party node : ι} {pc pc' : Pc}
  {passage : Passage ι}

/-! ### Where a node is, after a step -/

theorem Moves.chained_other (moves : discipline.Moves before after party pc pc')
    (same : node ∈ discipline.chain pc' ↔ node ∈ discipline.chain pc) :
    discipline.Chained after node ↔ discipline.Chained before node := by
  refine exists_congr fun other => ?_
  by_cases self : other = party
  · rw [self, moves.self, moves.source, same]
  · rw [moves.rest self]

section

variable (passed : discipline.Passed before passage)
  (moves : discipline.Moves before after party pc pc')
include passed moves

/-- A step that leaves the linked nodes and the chains as they were. -/
theorem Passed.same (entries : after.queue.entries = before.queue.entries)
    (chain : discipline.chain pc' = discipline.chain pc) :
    discipline.Passed after (passage.record discipline.chain before after party) := by
  have place (node : ι) : discipline.Chained after node ↔ discipline.Chained before node :=
    moves.chained_other (by rw [chain])
  refine ⟨fun node => ?_, fun node chained => ?_, fun node chained => ?_⟩
  · simpa [Passage.record, entries] using passed.linked node
  · simpa [Passage.record, entries, moves.self, moves.source, chain] using
      passed.unsignalled node ((place node).mp chained)
  · simpa [Passage.record, entries, moves.self, moves.source, chain] using
      passed.signalled node fun there => chained ((place node).mpr there)

/-- The own node is linked. -/
theorem Passed.push (queue : after.queue = before.queue.push party)
    (chain : discipline.chain pc' = discipline.chain pc) :
    discipline.Passed after (passage.record discipline.chain before after party) := by
  have place (node : ι) : discipline.Chained after node ↔ discipline.Chained before node :=
    moves.chained_other (by rw [chain])
  have count (node : ι) : after.queue.entries.count node =
      before.queue.entries.count node + if node = party then 1 else 0 := by
    by_cases self : node = party
    · simp [queue, self, List.count_append]
    · simp [queue, self, List.count_append, Ne.symm self]
  refine ⟨fun node => ?_, fun node chained => ?_, fun node chained => ?_⟩
  · have linked := passed.linked node
    simp only [Passage.record, count]
    split <;> omega
  · have unsignalled := passed.unsignalled node ((place node).mp chained)
    simp only [Passage.record, count, moves.self, moves.source, chain]
    split <;> omega
  · have signalled := passed.signalled node fun there => chained ((place node).mpr there)
    simp only [Passage.record, count, moves.self, moves.source, chain]
    split <;> omega

/-- The own node is unlinked. -/
theorem Passed.remove (member : party ∈ before.queue.entries)
    (queue : after.queue = before.queue.remove party)
    (chain : discipline.chain pc' = discipline.chain pc) :
    discipline.Passed after (passage.record discipline.chain before after party) := by
  have place (node : ι) : discipline.Chained after node ↔ discipline.Chained before node :=
    moves.chained_other (by rw [chain])
  have count (node : ι) : before.queue.entries.count node =
      after.queue.entries.count node + if node = party then 1 else 0 := by
    by_cases self : node = party
    · have present := List.count_pos_iff.mpr member
      simp only [queue, self, WaitQueue.remove_entries, List.count_erase_self]
      simp only [if_true]
      omega
    · simp [queue, self, List.count_erase_of_ne self]
  refine ⟨fun node => ?_, fun node chained => ?_, fun node chained => ?_⟩
  · have linked := passed.linked node
    have counted := count node
    simp only [Passage.record]
    by_cases self : node = party
    · rw [if_pos self] at counted
      rw [if_pos self, if_pos self]
      omega
    · rw [if_neg self] at counted
      rw [if_neg self, if_neg self]
      omega
  · have unsignalled := passed.unsignalled node ((place node).mp chained)
    simp only [Passage.record, count, moves.self, moves.source, chain]
    split <;> omega
  · have signalled := passed.signalled node fun there => chained ((place node).mpr there)
    simp only [Passage.record, count, moves.self, moves.source, chain]
    split <;> omega

end

/-- The popped nodes are other parties'. -/
theorem Kept.pops_others (kept : discipline.Kept before) {taken rest : List ι}
    (moves : discipline.Moves before after party pc pc')
    (front : before.queue.entries = taken ++ rest)
    (chain : discipline.chain pc' = discipline.chain pc ++ taken)
    (waits : discipline.waits pc' (valueOf before party) = discipline.waits pc
      (valueOf before party)) :
    party ∉ taken := by
  intro member
  have queued : party ∈ before.queue.entries := by
    rw [front]
    exact List.mem_append_left _ member
  have linked := (kept.queued queued).1
  have busy : discipline.chain pc' ≠ [] := by
    rw [chain]
    exact List.ne_nil_of_mem (List.mem_append_right _ member)
  rw [Waits, moves.source, ← waits, discipline.signalerFree _ busy] at linked
  cases linked

/-- A front part of the queue is popped into the chain of the party. -/
theorem Passed.pop (passed : discipline.Passed before passage) (kept : discipline.Kept before)
    {taken rest : List ι} (moves : discipline.Moves before after party pc pc')
    (front : before.queue.entries = taken ++ rest) (queue : after.queue = before.queue.leave rest)
    (chain : discipline.chain pc' = discipline.chain pc ++ taken)
    (waits : discipline.waits pc' (valueOf before party) = discipline.waits pc
      (valueOf before party)) :
    discipline.Passed after (passage.record discipline.chain before after party) := by
  have others := kept.pops_others moves front chain waits
  have unlinked (node : ι) (popped : node ∈ taken) : ¬discipline.Chained before node := by
    rintro ⟨other, chained⟩
    exact (kept.popped chained).2.2 (by rw [front]; exact List.mem_append_left _ popped)
  have once (node : ι) : taken.count node = if node ∈ taken then 1 else 0 := by
    have nodup : before.queue.entries.Nodup := kept.placed.queue_nodup
    rw [front] at nodup
    split
    · rename_i member
      exact List.count_eq_one_of_mem (List.nodup_append.mp nodup).1 member
    · rename_i member
      exact List.count_eq_zero_of_not_mem member
  have place (node : ι) : discipline.Chained after node ↔ discipline.Chained before node ∨
      node ∈ taken := by
    by_cases popped : node ∈ taken
    · refine iff_of_true ⟨party, ?_⟩ (.inr popped)
      rw [moves.self, chain]
      exact List.mem_append_right _ popped
    · rw [or_iff_left popped]
      exact moves.chained_other (by rw [chain, List.mem_append, or_iff_left popped])
  refine ⟨fun node => ?_, fun node chained => ?_, fun node chained => ?_⟩
  · have linked := passed.linked node
    rw [front, List.count_append] at linked
    simp only [Passage.record, front, queue, WaitQueue.leave_entries, List.count_append]
    split <;> omega
  · have counted := once node
    simp only [Passage.record, front, queue, WaitQueue.leave_entries, List.count_append, moves.self,
      moves.source, chain]
    by_cases popped : node ∈ taken
    · have signalled := passed.signalled node (unlinked node popped)
      rw [if_pos popped] at counted
      rw [if_neg (fun self : node = party => others (self ▸ popped))]
      omega
    · have unsignalled := passed.unsignalled node (((place node).mp chained).resolve_right popped)
      rw [if_neg popped] at counted
      split <;> omega
  · have popped : node ∉ taken := fun popped => chained ((place node).mpr (.inr popped))
    have signalled := passed.signalled node fun there => chained ((place node).mpr (.inl there))
    have counted := once node
    rw [if_neg popped] at counted
    simp only [Passage.record, front, queue, WaitQueue.leave_entries, List.count_append, moves.self,
      moves.source, chain]
    split <;> omega

/-- The first node of the chain is signalled. -/
theorem Passed.publish (passed : discipline.Passed before passage) (kept : discipline.Kept before)
    (moves : discipline.Moves before after party pc pc') (queue : after.queue = before.queue)
    (chain : discipline.chain pc = node :: discipline.chain pc') :
    discipline.Passed after (passage.record discipline.chain before after party) := by
  have member : node ∈ discipline.chain (before.pc party) := by
    rw [moves.source, chain]
    exact List.mem_cons_self
  have nodup : (discipline.chain pc).Nodup := moves.source ▸ kept.placed.chain_nodup party
  rw [chain, List.nodup_cons] at nodup
  have gone : ¬discipline.Chained after node := by
    rintro ⟨other, chained⟩
    by_cases self : other = party
    · rw [self, moves.self] at chained
      exact nodup.1 chained
    · rw [moves.rest self] at chained
      exact self (kept.placed.chain_unique other party node chained member)
  refine ⟨fun other => ?_, fun other chained => ?_, fun other chained => ?_⟩
  · simpa [Passage.record, queue] using passed.linked other
  · have different : other ≠ node := fun same => gone (same ▸ chained)
    have before' := (moves.chained_other (by rw [chain, List.mem_cons, or_iff_right different])).mp
      chained
    simpa [Passage.record, queue, moves.self, moves.source, chain,
      List.count_cons_of_ne different.symm] using passed.unsignalled other before'
  · simp only [Passage.record, queue, moves.self, moves.source, chain]
    by_cases self : other = node
    · have unsignalled := passed.unsignalled other ⟨party, self ▸ member⟩
      rw [self, List.count_cons_self]
      rw [self] at unsignalled
      split <;> omega
    · have before' : ¬discipline.Chained before other := fun there =>
        chained ((moves.chained_other (by rw [chain, List.mem_cons, or_iff_right self])).mpr there)
      have signalled := passed.signalled other before'
      rw [List.count_cons_of_ne (Ne.symm self)]
      split <;> omega

/-! ### Every effect keeps the count and the order -/

/-- A node that is linked anew was not linked. -/
theorem Kept.fresh (kept : discipline.Kept before) (source : before.pc party = pc)
    (fresh : discipline.waits pc (valueOf before party) = false) :
    party ∉ before.queue.entries := by
  intro member
  have waits := (kept.queued member).1
  rw [Waits, source, fresh] at waits
  cases waits

/-- **Every step keeps the count.** -/
theorem Passed.step (passed : discipline.Passed before passage) (kept : discipline.Kept before)
    (moves : discipline.Moves before after party pc pc') :
    discipline.Passed after (passage.record discipline.chain before after party) := by
  cases moves.effect with
  | own queue locked quiet => exact passed.same moves (by rw [queue]) quiet.chain
  | acquire free queue locked quiet => exact passed.same moves (by rw [queue]) quiet.chain
  | release queue held locked quiet => exact passed.same moves (by rw [queue]; rfl) quiet.chain
  | push queue locked chain values fresh waits unsignalled =>
    exact passed.push moves queue chain
  | pop taken rest front queue locked chain values waits =>
    exact passed.pop kept moves front queue chain waits
  | remove member queue locked chain values gone => exact passed.remove moves member queue chain
  | publish node signal kind queue locked chain value values free =>
    exact passed.publish kept moves queue chain
  | consume queue locked chain values waited final gone =>
    exact passed.same moves (by rw [queue]) chain

theorem Passed.new (entries : before.queue.entries = [])
    (chain : ∀ party, discipline.chain (before.pc party) = []) : discipline.Passed before .new where
  linked node := by simp [Passage.new, entries]
  unsignalled node chained := by
    obtain ⟨party, member⟩ := chained
    simp [chain] at member
  signalled _ _ := rfl

/-- What stays in the queue was there, in the same order. -/
theorem Ordered.sublist {chain : Pc → List ι} (ordered : Ordered before passage)
    (sublist : after.queue.entries.Sublist before.queue.entries) :
    Ordered after (passage.record chain before after party) := by
  have stamps (node : ι) : (passage.record chain before after party).stamp node =
      passage.stamp node :=
    if_neg (Nat.not_lt.mpr (sublist.count_le node))
  refine ⟨?_, fun node member => ?_⟩
  · simp only [stamps]
    exact ordered.ordered.sublist sublist
  · rw [stamps]
    exact Nat.lt_succ_of_lt (ordered.past node (sublist.subset member))

theorem Ordered.push {chain : Pc → List ι} (ordered : Ordered before passage)
    (fresh : party ∉ before.queue.entries) (queue : after.queue = before.queue.push party) :
    Ordered after (passage.record chain before after party) := by
  have own : (passage.record chain before after party).stamp party = passage.clock :=
    if_pos (by simp [queue, List.count_append])
  have stamps {node : ι} (member : node ∈ before.queue.entries) :
      (passage.record chain before after party).stamp node = passage.stamp node := by
    have different : party ≠ node := fun same => fresh (same ▸ member)
    exact if_neg (by simp [queue, List.count_append, different])
  refine ⟨?_, fun node member => ?_⟩
  · rw [queue, WaitQueue.push_entries, List.pairwise_append]
    refine ⟨?_, List.pairwise_singleton _ _, fun first linked last isLast => ?_⟩
    · exact ordered.ordered.imp_of_mem fun first second precedes => by
        rwa [stamps first, stamps second]
    · rw [List.mem_singleton.mp isLast, own, stamps linked]
      exact ordered.past first linked
  · rw [queue, WaitQueue.push_entries, List.mem_append, List.mem_singleton] at member
    rcases member with linked | rfl
    · rw [stamps linked]
      exact Nat.lt_succ_of_lt (ordered.past node linked)
    · rw [own]
      exact Nat.lt_succ_self _

/-- **Every step keeps the order.** -/
theorem Ordered.step {chain : Pc → List ι} (ordered : Ordered before passage)
    (kept : discipline.Kept before) (moves : discipline.Moves before after party pc pc') :
    Ordered after (passage.record chain before after party) := by
  cases moves.effect with
  | own queue locked quiet => exact ordered.sublist (by rw [queue])
  | acquire free queue locked quiet => exact ordered.sublist (by rw [queue])
  | release queue held locked quiet => exact ordered.sublist (by rw [queue]; exact .refl _)
  | push queue locked chain values fresh waits unsignalled =>
    exact ordered.push (kept.fresh moves.source fresh) queue
  | pop taken rest front queue locked chain values waits =>
    refine ordered.sublist ?_
    rw [front, queue]
    exact List.sublist_append_right _ _
  | remove member queue locked chain values gone =>
    refine ordered.sublist ?_
    rw [queue]
    exact List.erase_sublist
  | publish node signal kind queue locked chain value values free =>
    exact ordered.sublist (by rw [queue])
  | consume queue locked chain values waited final gone => exact ordered.sublist (by rw [queue])

theorem Ordered.new (entries : before.queue.entries = []) : Ordered before .new where
  ordered := by
    rw [entries]
    exact List.Pairwise.nil
  past node member := by simp [entries] at member

end Discipline

end Xutex
