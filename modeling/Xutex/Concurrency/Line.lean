/-
**First come, first served, when some give up.**

Everybody who joins a waiting line draws the next ticket. `Line` keeps what is needed to say who was
served in which order: the tickets drawn, who drew which last, those given up and those served.

* `Line.kept` — the tickets nobody gave up, in the order in which they were drawn.
* `InOrder` — **the tickets kept are those served, in the order of serving, and then those of the
  line.** So nobody is served before somebody who came first and did not give up.
* `InOrder.draw`, `InOrder.giveUp`, `InOrder.hand` — joining at the end, leaving from anywhere and
  serving the front keep the order.
-/

import Mathlib.Data.List.Nodup
import Mathlib.Data.List.Range
import Mathlib.Logic.Function.Basic
import Mathlib.Tactic.Common

set_option linter.unusedSectionVars false

namespace Concurrency

/-- The history of a waiting line. -/
structure Line (ι : Type*) where
  /-- The tickets drawn. -/
  clock : ℕ
  /-- The ticket a party drew last. -/
  ticket : ι → ℕ
  cancelled : List ℕ
  /-- The tickets served, in the order of serving. -/
  handed : List ℕ

namespace Line

variable {ι : Type*} [DecidableEq ι]

/-- Nobody has come. -/
def new : Line ι := ⟨0, fun _ => 0, [], []⟩

def draw (line : Line ι) (party : ι) : Line ι :=
  { line with clock := line.clock + 1, ticket := Function.update line.ticket party line.clock }

def giveUp (line : Line ι) (party : ι) : Line ι :=
  { line with cancelled := line.ticket party :: line.cancelled }

def hand (line : Line ι) (party : ι) : Line ι :=
  { line with handed := line.handed ++ [line.ticket party] }

/-- The tickets nobody gave up, in the order in which they were drawn. -/
def kept (line : Line ι) : List ℕ := (List.range line.clock).filter fun ticket =>
  ticket ∉ line.cancelled

/-- **The line is served in order.** -/
structure InOrder (line : Line ι) (waiting : List ι) : Prop where
  served : line.kept = line.handed ++ waiting.map line.ticket
  past : ∀ ticket ∈ line.cancelled, ticket < line.clock

variable {line : Line ι} {waiting : List ι} {party : ι}

theorem InOrder.new : InOrder (Line.new : Line ι) [] := ⟨rfl, (by rintro _ ⟨⟩)⟩

theorem kept_nodup (line : Line ι) : line.kept.Nodup := List.nodup_range.filter _

/-- Whoever joins comes last. -/
theorem InOrder.draw (inOrder : InOrder line waiting) (fresh : party ∉ waiting) :
    InOrder (line.draw party) (waiting ++ [party]) := by
  have valid : line.clock ∉ line.cancelled := fun member => (inOrder.past _ member).false
  have others : waiting.map (Function.update line.ticket party line.clock) =
      waiting.map line.ticket :=
    List.map_congr_left fun other member =>
      Function.update_of_ne (fun same : other = party => fresh (same ▸ member)) ..
  refine ⟨?_, fun ticket member => (inOrder.past ticket member).trans (Nat.lt_succ_self _)⟩
  have longer : (line.draw party).kept = line.kept ++ [line.clock] := by
    show (List.range (line.clock + 1)).filter _ = line.kept ++ [line.clock]
    have last : [line.clock].filter (fun ticket => decide (ticket ∉ line.cancelled)) =
        [line.clock] :=
      List.filter_eq_self.mpr (by simp [valid])
    rw [List.range_succ, List.filter_append]
    exact congrArg (line.kept ++ ·) last
  calc (line.draw party).kept
      = line.kept ++ [line.clock] := longer
    _ = line.handed ++ (waiting.map line.ticket ++ [line.clock]) := by
      rw [inOrder.served, List.append_assoc]
    _ = line.handed ++ (waiting ++ [party]).map (line.draw party).ticket := by
      simp only [List.map_append, Line.draw, others, List.map_singleton, Function.update_self]

/-- Serving the front. -/
theorem InOrder.hand (inOrder : InOrder line (party :: waiting)) :
    InOrder (line.hand party) waiting := by
  refine ⟨?_, inOrder.past⟩
  have served := inOrder.served
  rw [List.map_cons] at served
  rw [Line.hand, List.append_assoc]
  exact served

/-- Where the tickets differ, taking a party out is taking its ticket out. -/
theorem erase_map {ticket : ι → ℕ} : ∀ {waiting : List ι}, (waiting.map ticket).Nodup →
    party ∈ waiting → (waiting.map ticket).erase (ticket party) = (waiting.erase party).map ticket
  | [], _, member => by cases member
  | first :: rest, distinct, member => by
    rw [List.map_cons, List.nodup_cons] at distinct
    by_cases same : first = party
    · rw [same, List.map_cons, List.erase_cons_head, List.erase_cons_head]
    · have later : party ∈ rest := (List.mem_cons.mp member).resolve_left (Ne.symm same)
      have other : ticket first ≠ ticket party := fun equal =>
        distinct.1 (equal ▸ List.mem_map_of_mem later)
      rw [List.map_cons, List.erase_cons_tail (by simpa using other),
        List.erase_cons_tail (by simpa using same), List.map_cons, erase_map distinct.2 later]

/-- Whoever gives up leaves the order of the others. -/
theorem InOrder.giveUp (inOrder : InOrder line waiting) (member : party ∈ waiting) :
    InOrder (line.giveUp party) (waiting.erase party) := by
  have distinct := line.kept_nodup
  rw [inOrder.served, List.nodup_append] at distinct
  obtain ⟨-, apart, disjoint⟩ := distinct
  have unserved : line.ticket party ∉ line.handed := fun served =>
    disjoint _ served _ (List.mem_map_of_mem member) rfl
  have drawn : line.ticket party ∈ line.kept := by
    rw [inOrder.served]
    exact List.mem_append_right _ (List.mem_map_of_mem member)
  refine ⟨?_, fun ticket gone => ?_⟩
  · have fewer : (line.giveUp party).kept = line.kept.erase (line.ticket party) := by
      rw [line.kept_nodup.erase_eq_filter]
      simp only [kept, List.filter_filter, Line.giveUp]
      exact List.filter_congr fun ticket _ => by simp [List.mem_cons, not_or, bne, beq_eq_decide]
    rw [fewer, inOrder.served, List.erase_append_right _ unserved, erase_map apart member]
    rfl
  · rcases List.mem_cons.mp gone with rfl | before
    · exact List.mem_range.mp (List.mem_filter.mp drawn).1
    · exact inOrder.past ticket before

end Line

end Concurrency
