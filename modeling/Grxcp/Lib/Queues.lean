import Mathlib.Tactic

/-!
# In-order queues of commands

A device takes commands in queues. A command is held for the ones before it in its queue and for
those of its wait list, and nothing else orders it: queues run on their own. The log has every command
in the order in which it was issued, and a command is named by its index there. A command may also
raise a counter to a value, or wait until one has reached a value.

`Before` is the order that queues and wait lists give, and `Ordered` says that it relates every two
commands whose queues are to be in order. `Board` adds which commands are done: a command completes
when all that it is held for is (`Board.Ready`), so what is done is closed under `Before`
(`Board.Closed`).
-/

namespace Grxcp.Queues

/-- What a command does: work, raise a counter, or wait for one. -/
inductive Body (C W : Type*)
  | work (w : W)
  | signal (c : C) (v : ℕ)
  | wait (c : C) (v : ℕ)
deriving DecidableEq

/-- A command: its queue, the commands of its wait list, and what it does. -/
structure Command (Q C W : Type*) where
  queue : Q
  waits : List ℕ
  body : Body C W
deriving DecidableEq

/-- The commands in the order of their issue. -/
abbrev Log (Q C W : Type*) :=
  List (Command Q C W)

variable {Q C W : Type*}

/-- A new command is held for the command. -/
def Feeds (log : Log Q C W) (c : Command Q C W) (i : ℕ) : Prop :=
  ∃ a, log[i]? = some a ∧ (a.queue = c.queue ∨ i ∈ c.waits)

/-- Command `j` is held for command `i`. -/
def Edge (log : Log Q C W) (i j : ℕ) : Prop :=
  ∃ c, log[j]? = some c ∧ Feeds (log.take j) c i

/-- A chain of queue order and wait lists leads from command `i` to command `j`. -/
def Before (log : Log Q C W) : ℕ → ℕ → Prop :=
  Relation.TransGen (Edge log)

/-- Such a chain leads from the command to a new one. -/
def Covers (log : Log Q C W) (c : Command Q C W) (i : ℕ) : Prop :=
  ∃ k, Feeds log c k ∧ (i = k ∨ Before log i k)

/-- The last command of a queue. -/
def IsLast (log : Log Q C W) (q : Q) (i : ℕ) : Prop :=
  (∃ a, log[i]? = some a ∧ a.queue = q) ∧ ∀ j a, log[j]? = some a → a.queue = q → j ≤ i

/-- Any two commands whose queues are related are ordered as they were issued. -/
def Ordered (R : Q → Q → Prop) (log : Log Q C W) : Prop :=
  ∀ i j a b, i < j → log[i]? = some a → log[j]? = some b → R a.queue b.queue → Before log i j

section Log

variable {log : Log Q C W} {c : Command Q C W} {i j : ℕ}

instance [DecidableEq Q] (log : Log Q C W) (c : Command Q C W) (i : ℕ) : Decidable (Feeds log c i) :=
  decidable_of_iff (log[i]?.any fun a => a.queue = c.queue || i ∈ c.waits) (by
    simp [Feeds, Option.any_eq_true])

theorem Feeds.lt (h : Feeds log c i) : i < log.length := by
  obtain ⟨a, ha, -⟩ := h
  exact (List.getElem?_eq_some_iff.mp ha).1

theorem Edge.lt_length (h : Edge log i j) : j < log.length := by
  obtain ⟨c, hc, -⟩ := h
  exact (List.getElem?_eq_some_iff.mp hc).1

/-- A command is held for earlier ones only. -/
theorem Edge.lt (h : Edge log i j) : i < j := by
  obtain ⟨c, -, hf⟩ := h
  have := hf.lt
  rw [List.length_take] at this
  omega

theorem Before.lt (h : Before log i j) : i < j := by
  induction h with
  | single h => exact h.lt
  | tail _ h ih => exact ih.trans h.lt

theorem Before.lt_length (h : Before log i j) : j < log.length := by
  cases h with
  | single h => exact h.lt_length
  | tail _ h => exact h.lt_length

/-- Between neighbours there is no room for a chain. -/
theorem before_succ : Before log i (i + 1) ↔ Edge log i (i + 1) := by
  refine ⟨fun h => ?_, fun h => .single h⟩
  cases h with
  | single h => exact h
  | tail hb h =>
    have := Before.lt hb
    have := h.lt
    omega

/-! ## A new command -/

theorem getElem?_append_last (log : Log Q C W) (c : Command Q C W) :
    (log ++ [c])[log.length]? = some c := by
  simp

theorem getElem?_append_of_lt (h : j < log.length) : (log ++ [c])[j]? = log[j]? :=
  List.getElem?_append_left h

/-- An index of the longer log is one of the log, or the new command's. -/
theorem getElem?_append_some {a : Command Q C W} (h : (log ++ [c])[i]? = some a) :
    log[i]? = some a ∨ i = log.length ∧ a = c := by
  rcases lt_trichotomy i log.length with hi | rfl | hi
  · exact .inl (getElem?_append_of_lt hi ▸ h)
  · rw [getElem?_append_last] at h
    exact .inr ⟨rfl, (Option.some.inj h).symm⟩
  · rw [List.getElem?_eq_none (by simp; omega)] at h
    cases h

theorem getElem?_append_mono {a : Command Q C W} (h : log[i]? = some a) :
    (log ++ [c])[i]? = some a := by
  rw [getElem?_append_of_lt (List.getElem?_eq_some_iff.mp h).1, h]

theorem edge_append_of_lt (h : j < log.length) : Edge (log ++ [c]) i j ↔ Edge log i j := by
  unfold Edge
  rw [getElem?_append_of_lt h, List.take_append_of_le_length h.le]

theorem edge_last : Edge (log ++ [c]) i log.length ↔ Feeds log c i := by
  unfold Edge
  rw [getElem?_append_last, List.take_left]
  simp

theorem Edge.append (h : Edge log i j) : Edge (log ++ [c]) i j :=
  (edge_append_of_lt h.lt_length).mpr h

theorem Before.append (h : Before log i j) : Before (log ++ [c]) i j := by
  induction h with
  | single h => exact .single h.append
  | tail _ h ih => exact ih.tail h.append

theorem before_append_of_lt (hj : j < log.length) :
    Before (log ++ [c]) i j ↔ Before log i j := by
  refine ⟨fun h => ?_, Before.append⟩
  induction h with
  | single h => exact .single ((edge_append_of_lt hj).mp h)
  | tail _ h ih =>
    have h := (edge_append_of_lt hj).mp h
    exact (ih (h.lt.trans hj)).tail h

theorem before_last : Before (log ++ [c]) i log.length ↔ Covers log c i := by
  constructor
  · intro h
    cases h with
    | single h => exact ⟨i, edge_last.mp h, .inl rfl⟩
    | tail hb h =>
      have hf := edge_last.mp h
      exact ⟨_, hf, .inr ((before_append_of_lt hf.lt).mp hb)⟩
  · rintro ⟨k, hf, rfl | hb⟩
    · exact .single (edge_last.mpr hf)
    · exact hb.append.tail (edge_last.mpr hf)

theorem Covers.of_before {k : ℕ} (h : Covers log c k) (hb : Before log i k) : Covers log c i := by
  obtain ⟨l, hf, rfl | hl⟩ := h
  · exact ⟨k, hf, .inr hb⟩
  · exact ⟨l, hf, .inr (hb.trans hl)⟩

theorem covers_of_queue {a : Command Q C W} (ha : log[i]? = some a) (hq : a.queue = c.queue) :
    Covers log c i :=
  ⟨i, ⟨a, ha, .inl hq⟩, .inl rfl⟩

theorem covers_of_mem {a : Command Q C W} (ha : log[i]? = some a) (hw : i ∈ c.waits) :
    Covers log c i :=
  ⟨i, ⟨a, ha, .inr hw⟩, .inl rfl⟩

/-! ## The commands of a queue -/

/-- Commands of one queue are ordered. -/
theorem before_of_queue {a b : Command Q C W} (hij : i < j) (ha : log[i]? = some a)
    (hb : log[j]? = some b) (hq : a.queue = b.queue) : Before log i j := by
  refine .single ⟨b, hb, a, ?_, .inl hq⟩
  rw [List.getElem?_take_of_lt hij, ha]

theorem IsLast.unique {q : Q} (hi : IsLast log q i) (hj : IsLast log q j) : i = j := by
  obtain ⟨⟨a, ha, hqa⟩, hmax⟩ := hi
  obtain ⟨⟨b, hb, hqb⟩, hmax'⟩ := hj
  exact le_antisymm (hmax' i a ha hqa) (hmax j b hb hqb)

/-- The last command of a queue comes after every other. -/
theorem IsLast.eq_or_before {q : Q} (h : IsLast log q j) {a : Command Q C W}
    (ha : log[i]? = some a) (hq : a.queue = q) : i = j ∨ Before log i j := by
  obtain ⟨⟨b, hb, hqb⟩, hmax⟩ := h
  rcases (hmax i a ha hq).eq_or_lt with rfl | hlt
  · exact .inl rfl
  · exact .inr (before_of_queue hlt ha hb (hq.trans hqb.symm))

theorem IsLast.covers {q : Q} (h : IsLast log q j) (hc : Covers log c j) {a : Command Q C W}
    (ha : log[i]? = some a) (hq : a.queue = q) : Covers log c i := by
  rcases h.eq_or_before ha hq with rfl | hb
  · exact hc
  · exact hc.of_before hb

/-- A new command is the last of its queue. -/
theorem isLast_append_self (log : Log Q C W) (c : Command Q C W) :
    IsLast (log ++ [c]) c.queue log.length := by
  refine ⟨⟨c, getElem?_append_last log c, rfl⟩, fun j a ha _ => ?_⟩
  have := (List.getElem?_eq_some_iff.mp ha).1
  rw [List.length_append, List.length_singleton] at this
  omega

theorem IsLast.append {q : Q} (h : IsLast log q i) (hq : c.queue ≠ q) :
    IsLast (log ++ [c]) q i := by
  obtain ⟨⟨a, ha, hqa⟩, hmax⟩ := h
  refine ⟨⟨a, getElem?_append_mono ha, hqa⟩, fun j b hb hqb => ?_⟩
  rcases getElem?_append_some hb with hb | ⟨-, rfl⟩
  · exact hmax j b hb hqb
  · exact absurd hqb hq

theorem isLast_append_of_ne {q : Q} (hq : c.queue ≠ q) :
    IsLast (log ++ [c]) q i ↔ IsLast log q i := by
  refine ⟨fun ⟨⟨a, ha, hqa⟩, hmax⟩ => ?_, fun h => h.append hq⟩
  rcases getElem?_append_some ha with ha | ⟨-, rfl⟩
  · exact ⟨⟨a, ha, hqa⟩, fun j b hb => hmax j b (getElem?_append_mono hb)⟩
  · exact absurd hqa hq

/-- A queue with a command has a last one. -/
theorem exists_isLast {a : Command Q C W} (ha : log[i]? = some a) :
    ∃ l, IsLast log a.queue l := by
  induction log using List.reverseRecOn with
  | nil => cases ha
  | append_singleton log c ih =>
    by_cases hq : c.queue = a.queue
    · exact ⟨log.length, hq ▸ isLast_append_self log c⟩
    · rcases getElem?_append_some ha with ha | ⟨-, rfl⟩
      · obtain ⟨l, hl⟩ := ih ha
        exact ⟨l, hl.append hq⟩
      · exact absurd rfl hq

/-! ## Queues in order -/

variable {R : Q → Q → Prop}

theorem ordered_nil : Ordered R ([] : Log Q C W) := by
  intro i j a b _ ha
  cases ha

/-- Queues stay in order when chains lead to the new command from the last command of every queue
that is to be in order with its own. -/
theorem ordered_append : Ordered R (log ++ [c]) ↔
    Ordered R log ∧ ∀ q l, R q c.queue → IsLast log q l → Covers log c l := by
  constructor
  · intro h
    refine ⟨fun i j a b hij ha hb hr => ?_, fun q l hr hl => ?_⟩
    · have hj := (List.getElem?_eq_some_iff.mp hb).1
      exact (before_append_of_lt hj).mp
        (h i j a b hij (getElem?_append_mono ha) (getElem?_append_mono hb) hr)
    · obtain ⟨⟨a, ha, rfl⟩, -⟩ := hl
      exact before_last.mp (h l log.length a c (List.getElem?_eq_some_iff.mp ha).1
        (getElem?_append_mono ha) (getElem?_append_last log c) hr)
  · rintro ⟨h, hnew⟩ i j a b hij ha hb hr
    rcases getElem?_append_some hb with hb | ⟨rfl, rfl⟩
    · have hj := (List.getElem?_eq_some_iff.mp hb).1
      rw [getElem?_append_of_lt (hij.trans hj)] at ha
      exact (h i j a b hij ha hb hr).append
    · rw [getElem?_append_of_lt hij] at ha
      obtain ⟨l, hl⟩ := exists_isLast ha
      exact before_last.mpr (hl.covers (hnew a.queue l hr hl) ha rfl)

end Log

/-! ## Completion -/

/-- The commands, which of them are done, and the counters. -/
structure Board (Q C W : Type*) where
  log : Log Q C W := []
  done : Finset ℕ := ∅
  counter : C → ℕ := fun _ => 0

/-- The counter a wait is for has reached its value. -/
def Body.Passes (counter : C → ℕ) : Body C W → Prop
  | .wait c v => v ≤ counter c
  | _ => True

instance (counter : C → ℕ) (b : Body C W) : Decidable (b.Passes counter) :=
  match b with
  | .work _ => .isTrue trivial
  | .signal _ _ => .isTrue trivial
  | .wait c v => inferInstanceAs (Decidable (v ≤ counter c))

/-- The counters after a command: they never go down. -/
def Body.raise [DecidableEq C] (counter : C → ℕ) : Body C W → C → ℕ
  | .signal c v => Function.update counter c (max (counter c) v)
  | _ => counter

namespace Board

/-- Command `c` of index `i` is not done, and nothing holds it. -/
def Free (b : Board Q C W) (i : ℕ) (c : Command Q C W) : Prop :=
  i ∉ b.done ∧ (∀ k < i, Feeds (b.log.take i) c k → k ∈ b.done) ∧ c.body.Passes b.counter

instance [DecidableEq Q] (b : Board Q C W) (i : ℕ) (c : Command Q C W) : Decidable (b.Free i c) :=
  inferInstanceAs (Decidable (_ ∧ _ ∧ _))

/-- Issue a command. -/
def issue (b : Board Q C W) (c : Command Q C W) : Board Q C W :=
  { b with log := b.log ++ [c] }

/-- Complete a command, if nothing holds it. -/
def complete [DecidableEq Q] [DecidableEq C] (b : Board Q C W) (i : ℕ) : Board Q C W :=
  match b.log[i]? with
  | none => b
  | some c =>
      if b.Free i c then
        { b with done := insert i b.done, counter := c.body.raise b.counter }
      else b

variable {b : Board Q C W} {c : Command Q C W} {i j : ℕ}

@[simp] theorem issue_log : (b.issue c).log = b.log ++ [c] := rfl

@[simp] theorem issue_done : (b.issue c).done = b.done := rfl

@[simp] theorem issue_counter : (b.issue c).counter = b.counter := rfl

section Complete

variable [DecidableEq Q] [DecidableEq C]

/-- What completing a command can do. -/
theorem complete_cases (b : Board Q C W) (i : ℕ) :
    b.complete i = b ∨
      ∃ c, b.log[i]? = some c ∧ b.Free i c ∧
        b.complete i = ⟨b.log, insert i b.done, c.body.raise b.counter⟩ := by
  unfold complete
  cases hc : b.log[i]? with
  | none => exact .inl rfl
  | some c =>
    by_cases hf : b.Free i c
    · exact .inr ⟨c, rfl, hf, if_pos hf⟩
    · exact .inl (if_neg hf)

@[simp] theorem complete_log : (b.complete i).log = b.log := by
  rcases b.complete_cases i with h | ⟨c, -, -, h⟩ <;> rw [h]

theorem done_subset_complete (b : Board Q C W) (i : ℕ) : b.done ⊆ (b.complete i).done := by
  rcases b.complete_cases i with h | ⟨c, -, -, h⟩ <;> rw [h]
  exact Finset.subset_insert i b.done

end Complete

/-- What is done was issued, and so was all that it was held for, and is done. -/
structure Closed (b : Board Q C W) : Prop where
  issued : ∀ i ∈ b.done, i < b.log.length
  closed : ∀ i j, Edge b.log i j → j ∈ b.done → i ∈ b.done

theorem Closed.empty : ({} : Board Q C W).Closed where
  issued := by
    intro i hi
    cases hi
  closed := by
    intro i j _ hj
    cases hj

theorem Closed.issue (h : b.Closed) (c : Command Q C W) : (b.issue c).Closed where
  issued := by
    intro i hi
    have := h.issued i hi
    simp only [issue_log, List.length_append, List.length_singleton]
    omega
  closed := by
    intro i j he hj
    exact h.closed i j ((edge_append_of_lt (h.issued j hj)).mp he) hj

theorem Free.edge (hc : b.log[j]? = some c) (hf : b.Free j c) (he : Edge b.log i j) :
    i ∈ b.done := by
  have hlt := he.lt
  obtain ⟨c', hc', hfeeds⟩ := he
  rw [hc] at hc'
  cases hc'
  exact hf.2.1 i hlt hfeeds

theorem Closed.complete [DecidableEq Q] [DecidableEq C] (h : b.Closed) (i : ℕ) :
    (b.complete i).Closed := by
  rcases b.complete_cases i with heq | ⟨c, hc, hf, heq⟩ <;> rw [heq]
  · exact h
  · constructor
    · intro j hj
      rcases Finset.mem_insert.mp hj with rfl | hj
      · exact (List.getElem?_eq_some_iff.mp hc).1
      · exact h.issued j hj
    · intro k j he hj
      refine Finset.mem_insert_of_mem ?_
      rcases Finset.mem_insert.mp hj with rfl | hj
      · exact Free.edge hc hf he
      · exact h.closed k j he hj

/-- What comes before a command that is done is done. -/
theorem Closed.before (h : b.Closed) (hb : Before b.log i j) (hj : j ∈ b.done) : i ∈ b.done := by
  induction hb with
  | single he => exact h.closed _ _ he hj
  | tail _ he ih => exact ih (h.closed _ _ he hj)

end Board

end Grxcp.Queues
