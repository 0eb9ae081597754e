/-
**The hand-off of waiters: one place for every node.**

A waiter links a node of its own into a shared queue and waits until some other party has written a
final value into it. A signaler pops nodes into a chain of its own and signals them one after
another, after it has let go of the queue. `Nodes` is all that matters of such a system here:

* `queue` — the nodes linked in the queue, front first;
* `chain j` — the nodes party `j` has popped and not yet signalled;
* `waiting i` — `i` has linked its node and has not yet taken it back;
* `signalled i` — the node of `i` carries a final value.

`Placed` is the invariant: **every waiting node that is not signalled is in exactly one place**, the
queue or one chain, once, and no other node is anywhere. It is kept by the six things a step can do
to nodes: nothing (`frame`), linking its own node (`push`), popping a front part of the queue
(`pop`), unlinking its own node (`remove`), signalling the first node of its chain (`publish`), and
taking its own signalled node back (`consume`).
-/

import Mathlib.Data.List.Nodup
import Mathlib.Tactic.Common

namespace Concurrency

/-- The nodes of a hand-off system. -/
structure Nodes (ι : Type*) where
  queue : List ι
  chain : ι → List ι
  waiting : ι → Prop
  signalled : ι → Prop

/-- **Every unsignalled waiting node is in exactly one place**, and no other node is in any. -/
structure Placed {ι : Type*} (nodes : Nodes ι) : Prop where
  queue_nodup : nodes.queue.Nodup
  queued : ∀ i ∈ nodes.queue, nodes.waiting i ∧ ¬ nodes.signalled i
  chain_nodup : ∀ j, (nodes.chain j).Nodup
  popped : ∀ j, ∀ i ∈ nodes.chain j, nodes.waiting i ∧ ¬ nodes.signalled i ∧ i ∉ nodes.queue
  chain_unique : ∀ j k i, i ∈ nodes.chain j → i ∈ nodes.chain k → j = k
  located : ∀ i, nodes.waiting i → ¬ nodes.signalled i → i ∈ nodes.queue ∨ ∃ j, i ∈ nodes.chain j

/-- **Draining up to a block.** In a queue ordered by `key`, popping until the front has the key
`block` leaves no node with a smaller key. -/
theorem ordered_dropWhile_ne {α : Type*} {key : α → ℕ} {block : ℕ} :
    ∀ (queue : List α), queue.Pairwise (fun first second => key first ≤ key second) →
      ∀ node ∈ queue.dropWhile (fun node => decide (key node ≠ block)), block ≤ key node
  | [], _, node, member => by simp at member
  | front :: rest, ordered, node, member => by
    rw [List.pairwise_cons] at ordered
    by_cases other : key front ≠ block
    · rw [List.dropWhile_cons_of_pos (by simpa using other)] at member
      exact ordered_dropWhile_ne rest ordered.2 node member
    · rw [List.dropWhile_cons_of_neg (by simpa using other)] at member
      have reached : key front = block := not_not.mp other
      rcases List.mem_cons.mp member with rfl | later
      · exact Nat.le_of_eq reached.symm
      · exact reached ▸ ordered.1 node later

/-- **Draining a front block.** In a queue ordered by `key` whose keys are all at least `block`,
popping while the front has the key `block` leaves no such node. -/
theorem ordered_dropWhile {α : Type*} {key : α → ℕ} {block : ℕ} {mine : α → Bool} :
    ∀ (queue : List α), queue.Pairwise (fun first second => key first ≤ key second) →
      (∀ node ∈ queue, block ≤ key node) → (∀ node ∈ queue, mine node = true ↔ key node = block) →
      ∀ node ∈ queue.dropWhile mine, key node ≠ block
  | [], _, _, _, node, member => by simp at member
  | front :: rest, ordered, least, exactly, node, member => by
    rw [List.pairwise_cons] at ordered
    by_cases own : mine front = true
    · rw [List.dropWhile_cons_of_pos own] at member
      exact ordered_dropWhile rest ordered.2
        (fun other inRest => least other (List.mem_cons_of_mem _ inRest))
        (fun other inRest => exactly other (List.mem_cons_of_mem _ inRest)) node member
    · rw [List.dropWhile_cons_of_neg own] at member
      have above : block < key front := Nat.lt_of_le_of_ne (least front List.mem_cons_self)
        fun same => own ((exactly front List.mem_cons_self).mpr same.symm)
      rcases List.mem_cons.mp member with rfl | inRest
      · exact Nat.ne_of_gt above
      · exact Nat.ne_of_gt (Nat.lt_of_lt_of_le above (ordered.1 node inRest))

namespace Placed

variable {ι : Type*} {nodes nodes' : Nodes ι}

/-- Nobody waits, nothing is linked. -/
theorem empty (queue : nodes.queue = []) (chain : ∀ j, nodes.chain j = [])
    (waiting : ∀ i, ¬ nodes.waiting i) : Placed nodes where
  queue_nodup := by
    rw [queue]
    exact List.nodup_nil
  queued i member := by simp [queue] at member
  chain_nodup j := by
    rw [chain j]
    exact List.nodup_nil
  popped j i member := by simp [chain j] at member
  chain_unique j k i member := by simp [chain j] at member
  located i waits := absurd waits (waiting i)

/-- A step that touches no node. -/
theorem frame (placed : Placed nodes) (queue : nodes'.queue = nodes.queue)
    (chain : ∀ j, nodes'.chain j = nodes.chain j)
    (waiting : ∀ i, nodes'.waiting i ↔ nodes.waiting i)
    (signalled : ∀ i, nodes.waiting i → (nodes'.signalled i ↔ nodes.signalled i)) :
    Placed nodes' where
  queue_nodup := queue ▸ placed.queue_nodup
  queued i member := by
    obtain ⟨waits, unsignalled⟩ := placed.queued i (queue ▸ member)
    exact ⟨(waiting i).mpr waits, fun final => unsignalled ((signalled i waits).mp final)⟩
  chain_nodup j := chain j ▸ placed.chain_nodup j
  popped j i member := by
    obtain ⟨waits, unsignalled, outside⟩ := placed.popped j i (chain j ▸ member)
    exact ⟨(waiting i).mpr waits, fun final => unsignalled ((signalled i waits).mp final),
      queue ▸ outside⟩
  chain_unique j k i inFirst inSecond :=
    placed.chain_unique j k i (chain j ▸ inFirst) (chain k ▸ inSecond)
  located i waits unsignalled := by
    have waited := (waiting i).mp waits
    rw [queue]
    rcases placed.located i waited fun final => unsignalled ((signalled i waited).mpr final) with
      linked | ⟨j, member⟩
    · exact Or.inl linked
    · exact Or.inr ⟨j, (chain j).symm ▸ member⟩

/-- A party links its own node at the back of the queue. -/
theorem push (placed : Placed nodes) (party : ι) (fresh : ¬ nodes.waiting party)
    (queue : nodes'.queue = nodes.queue ++ [party])
    (chain : ∀ j, nodes'.chain j = nodes.chain j)
    (waiting : ∀ i, nodes'.waiting i ↔ nodes.waiting i ∨ i = party)
    (unsignalled : ¬ nodes'.signalled party)
    (signalled : ∀ i, i ≠ party → nodes.waiting i → (nodes'.signalled i ↔ nodes.signalled i)) :
    Placed nodes' := by
  have notQueued : party ∉ nodes.queue := fun member => fresh (placed.queued party member).1
  have notPopped : ∀ j, party ∉ nodes.chain j := fun j member =>
    fresh (placed.popped j party member).1
  have other : ∀ i, nodes.waiting i → i ≠ party := fun i waits same => fresh (same ▸ waits)
  refine ⟨?_, ?_, ?_, ?_, ?_, ?_⟩
  · rw [queue, List.nodup_append]
    refine ⟨placed.queue_nodup, List.nodup_singleton _, fun i member k single same => ?_⟩
    rw [List.mem_singleton.mp single] at same
    exact notQueued (same ▸ member)
  · intro i member
    rw [queue, List.mem_append, List.mem_singleton] at member
    rcases member with member | same
    · obtain ⟨waits, unsignalled⟩ := placed.queued i member
      exact ⟨(waiting i).mpr (Or.inl waits), fun final =>
        unsignalled ((signalled i (other i waits) waits).mp final)⟩
    · subst same
      exact ⟨(waiting i).mpr (Or.inr rfl), unsignalled⟩
  · exact fun j => chain j ▸ placed.chain_nodup j
  · intro j i member
    rw [chain j] at member
    obtain ⟨waits, unsignalled, outside⟩ := placed.popped j i member
    refine ⟨(waiting i).mpr (Or.inl waits), fun final =>
      unsignalled ((signalled i (other i waits) waits).mp final), ?_⟩
    rw [queue, List.mem_append, List.mem_singleton]
    rintro (linked | same)
    · exact outside linked
    · exact notPopped j (same ▸ member)
  · exact fun j k i inFirst inSecond =>
      placed.chain_unique j k i (chain j ▸ inFirst) (chain k ▸ inSecond)
  · intro i waits unsignalled
    rw [queue, List.mem_append, List.mem_singleton]
    rcases (waiting i).mp waits with waited | same
    · rcases placed.located i waited fun final =>
        unsignalled ((signalled i (other i waited) waited).mpr final) with linked | ⟨j, member⟩
      · exact Or.inl (Or.inl linked)
      · exact Or.inr ⟨j, (chain j).symm ▸ member⟩
    · exact Or.inl (Or.inr same)

/-- A party pops a front part of the queue and appends it to its chain. -/
theorem pop (placed : Placed nodes) (party : ι) (taken : List ι)
    (queue : nodes.queue = taken ++ nodes'.queue)
    (chainSelf : nodes'.chain party = nodes.chain party ++ taken)
    (chain : ∀ j, j ≠ party → nodes'.chain j = nodes.chain j)
    (waiting : ∀ i, nodes'.waiting i ↔ nodes.waiting i)
    (signalled : ∀ i, nodes.waiting i → (nodes'.signalled i ↔ nodes.signalled i)) :
    Placed nodes' := by
  have nodup := placed.queue_nodup
  rw [queue, List.nodup_append] at nodup
  obtain ⟨takenNodup, restNodup, apart⟩ := nodup
  have inQueue : ∀ i, i ∈ nodes.queue ↔ i ∈ taken ∨ i ∈ nodes'.queue := fun i => by
    rw [queue, List.mem_append]
  -- membership in a chain of the new state, read in the old one
  have inChain : ∀ j i, i ∈ nodes'.chain j → i ∈ nodes.chain j ∨ (j = party ∧ i ∈ taken) := by
    intro j i member
    by_cases same : j = party
    · subst same
      rw [chainSelf, List.mem_append] at member
      exact member.imp id fun inTaken => ⟨rfl, inTaken⟩
    · exact Or.inl (chain j same ▸ member)
  have keeps : ∀ i, nodes.waiting i → ¬ nodes.signalled i → nodes'.waiting i ∧
      ¬ nodes'.signalled i :=
    fun i waits unsignalled => ⟨(waiting i).mpr waits, fun final =>
      unsignalled ((signalled i waits).mp final)⟩
  refine ⟨restNodup, ?_, ?_, ?_, ?_, ?_⟩
  · intro i member
    obtain ⟨waits, unsignalled⟩ := placed.queued i ((inQueue i).mpr (Or.inr member))
    exact keeps i waits unsignalled
  · intro j
    by_cases same : j = party
    · subst same
      rw [chainSelf, List.nodup_append]
      refine ⟨placed.chain_nodup j, takenNodup, fun i member k inTaken equal => ?_⟩
      exact (placed.popped j i member).2.2 ((inQueue i).mpr (Or.inl (equal ▸ inTaken)))
    · rw [chain j same]
      exact placed.chain_nodup j
  · intro j i member
    rcases inChain j i member with old | ⟨-, inTaken⟩
    · obtain ⟨waits, unsignalled, outside⟩ := placed.popped j i old
      exact ⟨(keeps i waits unsignalled).1, (keeps i waits unsignalled).2, fun linked =>
        outside ((inQueue i).mpr (Or.inr linked))⟩
    · obtain ⟨waits, unsignalled⟩ := placed.queued i ((inQueue i).mpr (Or.inl inTaken))
      exact ⟨(keeps i waits unsignalled).1, (keeps i waits unsignalled).2, fun linked =>
        apart i inTaken i linked rfl⟩
  · intro j k i inFirst inSecond
    rcases inChain j i inFirst with first | ⟨rfl, first⟩ <;>
      rcases inChain k i inSecond with second | ⟨rfl, second⟩
    · exact placed.chain_unique j k i first second
    · exact absurd ((inQueue i).mpr (Or.inl second)) (placed.popped j i first).2.2
    · exact absurd ((inQueue i).mpr (Or.inl first)) (placed.popped k i second).2.2
    · rfl
  · intro i waits unsignalled
    have waited := (waiting i).mp waits
    rcases placed.located i waited fun final => unsignalled ((signalled i waited).mpr final) with
      linked | ⟨j, member⟩
    · rcases (inQueue i).mp linked with inTaken | kept
      · exact Or.inr ⟨party, by rw [chainSelf, List.mem_append]; exact Or.inr inTaken⟩
      · exact Or.inl kept
    · refine Or.inr ⟨j, ?_⟩
      by_cases same : j = party
      · subst same
        rw [chainSelf, List.mem_append]
        exact Or.inl member
      · rw [chain j same]
        exact member

/-- The node of a party that is in no chain leaves the protocol. -/
theorem retire (placed : Placed nodes) (party : ι) (nodup : nodes'.queue.Nodup)
    (inQueue : ∀ i, i ∈ nodes'.queue ↔ i ∈ nodes.queue ∧ i ≠ party)
    (unpopped : ∀ j, party ∉ nodes.chain j) (chain : ∀ j, nodes'.chain j = nodes.chain j)
    (waiting : ∀ i, nodes'.waiting i ↔ nodes.waiting i ∧ i ≠ party)
    (signalled : ∀ i, i ≠ party → nodes.waiting i → (nodes'.signalled i ↔ nodes.signalled i)) :
    Placed nodes' where
  queue_nodup := nodup
  queued i linked := by
    obtain ⟨old, different⟩ := (inQueue i).mp linked
    obtain ⟨waits, unsignalled⟩ := placed.queued i old
    exact ⟨(waiting i).mpr ⟨waits, different⟩, fun final =>
      unsignalled ((signalled i different waits).mp final)⟩
  chain_nodup j := chain j ▸ placed.chain_nodup j
  popped j i member := by
    rw [chain j] at member
    obtain ⟨waits, unsignalled, outside⟩ := placed.popped j i member
    have different : i ≠ party := fun same => unpopped j (same ▸ member)
    exact ⟨(waiting i).mpr ⟨waits, different⟩,
      fun final => unsignalled ((signalled i different waits).mp final),
      fun linked => outside ((inQueue i).mp linked).1⟩
  chain_unique j k i inFirst inSecond :=
    placed.chain_unique j k i (chain j ▸ inFirst) (chain k ▸ inSecond)
  located i waits unsignalled := by
    obtain ⟨waited, different⟩ := (waiting i).mp waits
    rcases placed.located i waited fun final =>
      unsignalled ((signalled i different waited).mpr final) with linked | ⟨j, member⟩
    · exact Or.inl ((inQueue i).mpr ⟨linked, different⟩)
    · exact Or.inr ⟨j, (chain j).symm ▸ member⟩

/-- A party unlinks its own node, wherever it is in the queue. -/
theorem remove [DecidableEq ι] (placed : Placed nodes) (party : ι) (member : party ∈ nodes.queue)
    (queue : nodes'.queue = nodes.queue.erase party)
    (chain : ∀ j, nodes'.chain j = nodes.chain j)
    (waiting : ∀ i, nodes'.waiting i ↔ nodes.waiting i ∧ i ≠ party)
    (signalled : ∀ i, i ≠ party → nodes.waiting i → (nodes'.signalled i ↔ nodes.signalled i)) :
    Placed nodes' := by
  refine placed.retire party ?_ (fun i => ?_) (fun j popped => ?_) chain waiting signalled
  · exact queue ▸ placed.queue_nodup.erase _
  · rw [queue, placed.queue_nodup.mem_erase_iff, and_comm]
  · exact (placed.popped j party popped).2.2 member

/-- A party signals the first node of its chain. -/
theorem publish (placed : Placed nodes) (party node : ι)
    (chainSelf : nodes.chain party = node :: nodes'.chain party)
    (queue : nodes'.queue = nodes.queue)
    (chain : ∀ j, j ≠ party → nodes'.chain j = nodes.chain j)
    (waiting : ∀ i, nodes'.waiting i ↔ nodes.waiting i) (final : nodes'.signalled node)
    (signalled : ∀ i, i ≠ node → nodes.waiting i → (nodes'.signalled i ↔ nodes.signalled i)) :
    Placed nodes' := by
  have nodup := placed.chain_nodup party
  rw [chainSelf, List.nodup_cons] at nodup
  have nodePopped : node ∈ nodes.chain party := by
    rw [chainSelf]
    exact List.mem_cons_self
  have inChain : ∀ j i, i ∈ nodes'.chain j → i ∈ nodes.chain j ∧ i ≠ node := by
    intro j i member
    by_cases same : j = party
    · subst same
      rw [chainSelf]
      exact ⟨List.mem_cons_of_mem _ member, fun equal => nodup.1 (equal ▸ member)⟩
    · have old : i ∈ nodes.chain j := chain j same ▸ member
      exact ⟨old, fun equal => same (placed.chain_unique j party i old (equal ▸ nodePopped))⟩
  refine ⟨queue ▸ placed.queue_nodup, ?_, ?_, ?_, ?_, ?_⟩
  · intro i linked
    rw [queue] at linked
    obtain ⟨waits, unsignalled⟩ := placed.queued i linked
    have different : i ≠ node := fun same =>
      (placed.popped party node nodePopped).2.2 (same ▸ linked)
    exact ⟨(waiting i).mpr waits, fun now => unsignalled ((signalled i different waits).mp now)⟩
  · intro j
    by_cases same : j = party
    · subst same
      exact nodup.2
    · rw [chain j same]
      exact placed.chain_nodup j
  · intro j i member
    obtain ⟨old, different⟩ := inChain j i member
    obtain ⟨waits, unsignalled, outside⟩ := placed.popped j i old
    exact ⟨(waiting i).mpr waits, fun now => unsignalled ((signalled i different waits).mp now),
      queue ▸ outside⟩
  · intro j k i inFirst inSecond
    exact placed.chain_unique j k i (inChain j i inFirst).1 (inChain k i inSecond).1
  · intro i waits unsignalled
    have different : i ≠ node := fun same => unsignalled (same ▸ final)
    have waited := (waiting i).mp waits
    rw [queue]
    rcases placed.located i waited fun now =>
      unsignalled ((signalled i different waited).mpr now) with linked | ⟨j, member⟩
    · exact Or.inl linked
    · refine Or.inr ⟨j, ?_⟩
      by_cases same : j = party
      · subst same
        rw [chainSelf] at member
        exact (List.mem_cons.mp member).resolve_left different
      · rw [chain j same]
        exact member

/-- A party takes its own signalled node back. -/
theorem consume (placed : Placed nodes) (party : ι) (final : nodes.signalled party)
    (queue : nodes'.queue = nodes.queue) (chain : ∀ j, nodes'.chain j = nodes.chain j)
    (waiting : ∀ i, nodes'.waiting i ↔ nodes.waiting i ∧ i ≠ party)
    (signalled : ∀ i, i ≠ party → nodes.waiting i → (nodes'.signalled i ↔ nodes.signalled i)) :
    Placed nodes' := by
  refine placed.retire party ?_ (fun i => ?_) (fun j popped => ?_) chain waiting signalled
  · exact queue ▸ placed.queue_nodup
  · rw [queue]
    refine ⟨fun linked => ⟨linked, ?_⟩, And.left⟩
    rintro rfl
    exact (placed.queued i linked).2 final
  · exact (placed.popped j party popped).2.1 final

end Placed

end Concurrency
