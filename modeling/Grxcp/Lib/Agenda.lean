import Mathlib.Data.List.Sort
import Mathlib.Tactic

/-!
# The agenda of a simulation

A discrete-event simulation keeps what is to happen in a heap, each entry under its due time, its
priority among those due then, and its number in the order of pushing. The agenda here is the list of
the entries in the order in which the heap gives them out: `push` puts an entry in its place, and the
first one is next.

What a proof about a simulation needs of the heap is that an entry taken off is before all that is
left (`Sorted.head_le`), and that entries of one priority pushed after one delay come off in the order
of their pushing (`before_of_later`).
-/

namespace Grxcp.Agenda

variable {E : Type*}

/-- What is to happen, and when. -/
structure Entry (E : Type*) where
  due : ℕ
  prio : ℕ
  n : ℕ
  fn : E

/-- The heap's order. -/
def Entry.Before (a b : Entry E) : Prop :=
  a.due < b.due ∨ a.due = b.due ∧ (a.prio < b.prio ∨ a.prio = b.prio ∧ a.n ≤ b.n)

instance : DecidableRel (Entry.Before (E := E)) :=
  fun a b => inferInstanceAs (Decidable (a.due < b.due ∨ a.due = b.due ∧ (a.prio < b.prio ∨ a.prio = b.prio ∧
    a.n ≤ b.n)))

/-- The list with the entry in its place. -/
def push (e : Entry E) (q : List (Entry E)) : List (Entry E) :=
  q.orderedInsert Entry.Before e

/-- The list is in the order of the heap. -/
abbrev Sorted (q : List (Entry E)) : Prop :=
  q.Pairwise Entry.Before

theorem Entry.Before.due_le {a b : Entry E} (h : a.Before b) : a.due ≤ b.due := by
  unfold Entry.Before at h
  omega

theorem Entry.Before.trans {a b c : Entry E} (h : a.Before b) (h' : b.Before c) : a.Before c := by
  unfold Entry.Before at *
  omega

theorem Entry.Before.total (a b : Entry E) : a.Before b ∨ b.Before a := by
  unfold Entry.Before
  omega

instance : Std.Total (Entry.Before (E := E)) := ⟨Entry.Before.total⟩

instance : IsTrans (Entry E) Entry.Before := ⟨fun _ _ _ => Entry.Before.trans⟩

@[simp] theorem mem_push {e e' : Entry E} {q : List (Entry E)} : e' ∈ push e q ↔ e' = e ∨ e' ∈ q :=
  List.mem_orderedInsert _

theorem countP_push (p : Entry E → Bool) (e : Entry E) (q : List (Entry E)) :
    (push e q).countP p = q.countP p + if p e then 1 else 0 := by
  unfold push
  rw [(List.perm_orderedInsert Entry.Before e q).countP_eq, List.countP_cons]

theorem Sorted.push {q : List (Entry E)} (h : Sorted q) (e : Entry E) : Sorted (push e q) :=
  List.Pairwise.orderedInsert e q h

theorem Sorted.tail {e : Entry E} {q : List (Entry E)} (h : Sorted (e :: q)) : Sorted q :=
  (List.pairwise_cons.mp h).2

/-- The entry that is next is before every other. -/
theorem Sorted.head_le {e e' : Entry E} {q : List (Entry E)} (h : Sorted (e :: q)) (he : e' ∈ q) : e.Before e' :=
  (List.pairwise_cons.mp h).1 e' he

/-- An entry pushed later under the same priority, and due no earlier, is after. -/
theorem before_of_later {a b : Entry E} (hdue : a.due ≤ b.due) (hprio : a.prio = b.prio) (hn : a.n < b.n) :
    a.Before b ∧ ¬b.Before a := by
  unfold Entry.Before
  omega

/-- What is picked out of the agenda does not change with an entry that is not. -/
theorem filterMap_push_none {B : Type*} (f : Entry E → Option B) {e : Entry E} (he : f e = none) (q : List (Entry E)) :
    (push e q).filterMap f = q.filterMap f := by
  unfold push
  induction q with
  | nil => rw [List.orderedInsert_nil, List.filterMap_cons_none he]
  | cons b q ih =>
    rw [List.orderedInsert_cons]
    split
    · rw [List.filterMap_cons_none he]
    · rw [List.filterMap_cons, List.filterMap_cons, ih]

/-- An entry that is after every one that is picked out comes last among them. -/
theorem filterMap_push_last {B : Type*} (f : Entry E → Option B) {e : Entry E} {b : B} (he : f e = some b)
    {q : List (Entry E)} (hs : Sorted q) (hlast : ∀ e' ∈ q, (f e').isSome = true → ¬e.Before e') :
    (push e q).filterMap f = q.filterMap f ++ [b] := by
  unfold push
  induction q with
  | nil => rw [List.orderedInsert_nil, List.filterMap_cons_some he, List.filterMap_nil, List.nil_append]
  | cons c q ih =>
    rw [List.orderedInsert_cons]
    split
    case isTrue hbefore =>
      -- everything from here on is after the new entry, so none of it is picked out
      have hnone : ∀ e' ∈ c :: q, f e' = none := by
        intro e' he'
        rw [← Option.not_isSome_iff_eq_none]
        intro hsome
        rcases List.mem_cons.mp he' with rfl | hq
        · exact hlast _ List.mem_cons_self hsome hbefore
        · exact hlast e' he' hsome (hbefore.trans (hs.head_le hq))
      have hempty : (c :: q).filterMap f = [] := List.filterMap_eq_nil_iff.mpr hnone
      rw [List.filterMap_cons_some he, hempty, List.nil_append]
    case isFalse =>
      rw [List.filterMap_cons, List.filterMap_cons, ih hs.tail fun e' he' => hlast e' (List.mem_cons_of_mem c he')]
      split
      · rfl
      · rw [List.cons_append]

end Grxcp.Agenda
