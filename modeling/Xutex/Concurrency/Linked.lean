/-
**Lists that live in the links of their members.**

`next` gives the successor of every node, queued or not. `Linked next list` says that it leads
through the list and ends behind it; a list that is cut in the middle leaves its two parts sharing
one link.

* `Linked.congr` — only the links of the members matter, so that writes elsewhere do no harm.
* `Linked.append_one`, `Linked.cut`, `Linked.skip` — one link is written to add a node at the end,
  to end a front part of the list, or to take out a node.
* `walk` — the nodes one meets on the way from a node, for some number of steps; `walk_linked`: the
  members, in order.
-/

import Mathlib.Data.List.Basic
import Mathlib.Data.List.Nodup
import Mathlib.Logic.Function.Basic

namespace Concurrency

variable {ν : Type*}

/-- `next` leads through the list and ends behind it. -/
def Linked (next : ν → Option ν) : List ν → Prop
  | [] => True
  | node :: rest => next node = rest.head? ∧ Linked next rest

variable {next next' : ν → Option ν} {front list : List ν} {node : ν}

/-- **Only the links of the members matter.** -/
theorem Linked.congr (linked : Linked next list) (same : ∀ node ∈ list, next' node = next node) :
    Linked next' list := by
  induction list with
  | nil => trivial
  | cons node rest ih =>
    exact ⟨by rw [same node List.mem_cons_self]; exact linked.1,
      ih linked.2 fun other inside => same other (List.mem_cons_of_mem _ inside)⟩

/-- The rear part of a list is a list. -/
theorem Linked.rear (linked : Linked next (front ++ list)) : Linked next list := by
  induction front with
  | nil => exact linked
  | cons node rest ih => exact ih linked.2

/-- The link of a member leads to what follows it. -/
theorem Linked.next_eq (linked : Linked next (front ++ node :: list)) : next node = list.head? :=
  linked.rear.1

section Writes

variable [DecidableEq ν]

/-- A node is linked behind the last one. -/
theorem Linked.append_one {last : ν} (linked : Linked next list) (ends : list.getLast? = some last)
    (nodup : list.Nodup) (outside : node ∉ list) (free : next node = none) :
    Linked (Function.update next last (some node)) (list ++ [node]) := by
  induction list with
  | nil => cases ends
  | cons first rest ih =>
    obtain ⟨fresh, nodup⟩ := List.nodup_cons.mp nodup
    obtain ⟨different, outside⟩ : node ≠ first ∧ node ∉ rest := by simpa using outside
    cases rest with
    | nil =>
      obtain rfl : first = last := by simpa using ends
      exact ⟨Function.update_self .., by rw [Function.update_of_ne different, free]; rfl, trivial⟩
    | cons second others =>
      have ends : (second :: others).getLast? = some last := by simpa using ends
      have inside : last ∈ second :: others := List.mem_of_getLast? ends
      refine ⟨?_, ih linked.2 ends nodup outside⟩
      have different : first ≠ last := fun same => fresh (same ▸ inside)
      rw [Function.update_of_ne different]
      exact linked.1

/-- The link behind the front part is cut. -/
theorem Linked.cut {last : ν} (linked : Linked next (front ++ list))
    (ends : front.getLast? = some last)
    (nodup : front.Nodup) : Linked (Function.update next last none) front := by
  induction front with
  | nil => cases ends
  | cons first rest ih =>
    obtain ⟨fresh, nodup⟩ := List.nodup_cons.mp nodup
    cases rest with
    | nil =>
      obtain rfl : first = last := by simpa using ends
      exact ⟨Function.update_self .., trivial⟩
    | cons second others =>
      have ends : (second :: others).getLast? = some last := by simpa using ends
      have inside : last ∈ second :: others := List.mem_of_getLast? ends
      refine ⟨?_, ih linked.2 ends nodup⟩
      have different : first ≠ last := fun same => fresh (same ▸ inside)
      rw [Function.update_of_ne different]
      exact linked.1

/-- A node behind `before` is taken out: the link of `before` leads past it. -/
theorem Linked.skip {before : ν} (linked : Linked next (front ++ before :: node :: list))
    (nodup : (front ++ before :: node :: list).Nodup) :
    Linked (Function.update next before (next node)) (front ++ before :: list) := by
  induction front with
  | nil =>
    have apart : before ∉ node :: list := (List.nodup_cons.mp nodup).1
    refine ⟨by rw [Function.update_self]; exact linked.2.1, linked.2.2.congr fun other inside => ?_⟩
    have different : other ≠ before := fun same => apart (same ▸ List.mem_cons_of_mem _ inside)
    rw [Function.update_of_ne different]
  | cons first rest ih =>
    obtain ⟨fresh, nodup⟩ := List.nodup_cons.mp nodup
    refine ⟨?_, ih linked.2 nodup⟩
    have different : first ≠ before := fun same => fresh (by simp [same])
    rw [Function.update_of_ne different, linked.1]
    cases rest <;> rfl

end Writes

/-! ### Walking -/

/-- The nodes met on the way from `start`, at most `steps` of them. -/
def walk (next : ν → Option ν) : ℕ → Option ν → List ν
  | 0, _ => []
  | _, none => []
  | steps + 1, some node => node :: walk next steps (next node)

/-- **A walk from the front meets the members, in order, and ends.** -/
theorem walk_linked (linked : Linked next list) {steps : ℕ} (enough : list.length ≤ steps) :
    walk next steps list.head? = list := by
  induction list generalizing steps with
  | nil => cases steps <;> rfl
  | cons node rest ih =>
    obtain ⟨steps, rfl⟩ : ∃ fewer, steps = fewer + 1 := ⟨steps - 1, by simp at enough; omega⟩
    rw [List.head?_cons, walk, linked.1, ih linked.2 (by simpa using enough)]

/-- A walk from the front meets nobody else. -/
theorem walk_subset (linked : Linked next list) {steps : ℕ}
    (reached : node ∈ walk next steps list.head?) : node ∈ list := by
  induction list generalizing steps with
  | nil => cases steps <;> cases reached
  | cons first rest ih =>
    cases steps with
    | zero => cases reached
    | succ steps =>
      rw [List.head?_cons, walk, linked.1, List.mem_cons] at reached
      exact List.mem_cons.mpr (reached.imp id fun later => ih linked.2 later)

/-- A walk that has ended meets nobody later. -/
theorem not_mem_walk {bound : ℕ} {start : Option ν} (ended : (walk next bound start).length < bound)
    (unmet : node ∉ walk next bound start) (steps : ℕ) : node ∉ walk next steps start := by
  induction bound generalizing start steps with
  | zero => cases ended
  | succ bound ih =>
    cases start with
    | none => cases steps <;> exact List.not_mem_nil
    | some first =>
      cases steps with
      | zero => exact List.not_mem_nil
      | succ steps =>
        rw [walk, List.length_cons, Nat.succ_lt_succ_iff] at ended
        rw [walk, List.mem_cons, not_or] at unmet ⊢
        exact ⟨unmet.1, ih ended unmet.2 steps⟩

end Concurrency
