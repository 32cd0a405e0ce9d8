import Mathlib.Tactic

/-!
# Demand paging

References are served from a set that is held: a reference to what is not held is a miss and brings it in, and
nothing else comes in. A schedule says what is held after each reference. To hold on to what is needed soonest
misses least: a schedule that evicts what is needed farthest in the future has, for every horizon, no fewer of
the things that are needed by then than any other has, but for the misses that it is behind (`Behind`).
-/

namespace Grxcp.Paging

variable {α : Type*} [DecidableEq α]

/-! ## Schedules -/

/-- One reference is served: it is held afterwards, nothing else has come in, and at most `W` are held. -/
structure Demand (W : ℕ) (s : Finset α) (r : α) (s' : Finset α) : Prop where
  mem : r ∈ s'
  sub : s' ⊆ insert r s
  card : s'.card ≤ W

/-- The sets that are held after each reference. -/
def Serves (W : ℕ) : List α → Finset α → List (Finset α) → Prop
  | [], _, schedule => schedule = []
  | r :: refs, s, s' :: schedule => Demand W s r s' ∧ Serves W refs s' schedule
  | _ :: _, _, [] => False

/-- The references that are not held as they come. -/
def misses : List α → Finset α → List (Finset α) → ℕ
  | r :: refs, s, s' :: schedule => (if r ∈ s then 0 else 1) + misses refs s' schedule
  | _, _, _ => 0

/-- A policy, whose state holds a set and counts, serves a list if it serves every reference, as long as what
it keeps is so of what is to come. -/
theorem exists_serves {S : Type*} {W : ℕ} {step : S → α → S} (held : S → Finset α) (count : S → ℕ)
    (I : List α → S → Prop) (hstep : ∀ s r refs, I (r :: refs) s → I refs (step s r) ∧
      Demand W (held s) r (held (step s r)) ∧ count (step s r) = count s + if r ∈ held s then 0 else 1)
    (refs : List α) (s : S) (hs : I refs s) :
    ∃ schedule, Serves W refs (held s) schedule ∧
      count (refs.foldl step s) = count s + misses refs (held s) schedule := by
  induction refs generalizing s with
  | nil => exact ⟨[], rfl, rfl⟩
  | cons r refs ih =>
    obtain ⟨hnext, hdemand, hcount⟩ := hstep s r refs hs
    obtain ⟨schedule, hserves, hmisses⟩ := ih (step s r) hnext
    refine ⟨held (step s r) :: schedule, ⟨hdemand, hserves⟩, ?_⟩
    rw [List.foldl_cons, hmisses, hcount, Nat.add_assoc]
    rfl

/-! ## The future -/

/-- How many references pass before the next one to `x`. -/
def nextUse (x : α) : List α → WithTop ℕ
  | [] => ⊤
  | r :: refs => if x = r then 0 else nextUse x refs + 1

/-- What of a set is needed before a horizon. -/
def soon (refs : List α) (τ : WithTop ℕ) (s : Finset α) : Finset α :=
  s.filter fun x => nextUse x refs < τ

/-- The eviction of what is needed farthest in the future. -/
structure Farthest (W : ℕ) (refs : List α) (s : Finset α) (r : α) (s' : Finset α) : Prop where
  hit : r ∈ s → s' = s
  room : r ∉ s → s.card < W → s' = insert r s
  full : r ∉ s → W ≤ s.card → ∃ v ∈ s, (∀ x ∈ s, nextUse x refs ≤ nextUse v refs) ∧ s' = insert r (s.erase v)

/-- A schedule of such evictions, whatever is chosen among what is needed equally far. -/
def FarthestSchedule (W : ℕ) : List α → Finset α → List (Finset α) → Prop
  | [], _, schedule => schedule = []
  | r :: refs, s, s' :: schedule => Farthest W refs s r s' ∧ FarthestSchedule W refs s' schedule
  | _ :: _, _, [] => False

/-- At every horizon a set has what another has of the things needed before it, but for `c`. -/
def Behind (c : ℕ) (refs : List α) (s t : Finset α) : Prop :=
  ∀ τ, (soon refs τ t).card ≤ (soon refs τ s).card + c

section Horizon

variable {refs : List α} {r : α} {s t : Finset α} {τ : WithTop ℕ} {W c : ℕ}

theorem mem_soon {x : α} : x ∈ soon refs τ s ↔ x ∈ s ∧ nextUse x refs < τ :=
  Finset.mem_filter

theorem soon_erase (x : α) : soon refs τ (s.erase x) = (soon refs τ s).erase x :=
  Finset.filter_erase ..

theorem card_soon_insert (hr : r ∉ s) : (soon refs τ (insert r s)).card =
    (soon refs τ s).card + if nextUse r refs < τ then 1 else 0 := by
  unfold soon
  rw [Finset.filter_insert]
  by_cases hsoon : nextUse r refs < τ
  · rw [if_pos hsoon, if_pos hsoon, Finset.card_insert_of_notMem]
    exact fun hmem => hr (Finset.mem_filter.mp hmem).1
  · rw [if_neg hsoon, if_neg hsoon, Nat.add_zero]

/-- One reference later everything but what was referenced is one nearer. -/
theorem card_soon_cons : (soon (r :: refs) (τ + 1) s).card =
    (soon refs τ (s.erase r)).card + if r ∈ s then 1 else 0 := by
  have hzero : (0 : WithTop ℕ) < τ + 1 := by
    exact lt_of_lt_of_le zero_lt_one le_add_self
  have hsucc : ∀ n : WithTop ℕ, n + 1 < τ + 1 ↔ n < τ := by
    intro n
    exact WithTop.add_lt_add_iff_right WithTop.one_ne_top
  have hsplit : soon (r :: refs) (τ + 1) s =
      if r ∈ s then insert r (soon refs τ (s.erase r)) else soon refs τ (s.erase r) := by
    ext x
    by_cases hx : x = r
    · subst hx
      have hnone : x ∉ soon refs τ (s.erase x) := fun hmem => Finset.notMem_erase x s (mem_soon.mp hmem).1
      rw [mem_soon, nextUse, if_pos rfl]
      split_ifs with hmem
      · exact iff_of_true ⟨hmem, hzero⟩ (Finset.mem_insert_self ..)
      · exact iff_of_false (fun h => hmem h.1) hnone
    · have hrest : x ∈ soon (r :: refs) (τ + 1) s ↔ x ∈ soon refs τ (s.erase r) := by
        rw [mem_soon, mem_soon, nextUse, if_neg hx, hsucc, Finset.mem_erase]
        exact and_congr_left fun _ => (and_iff_right hx).symm
      rw [hrest]
      split_ifs
      · rw [Finset.mem_insert, or_iff_right hx]
      · rfl
  rw [hsplit]
  split_ifs with hmem
  · rw [Finset.card_insert_of_notMem]
    exact fun h => Finset.notMem_erase r s (mem_soon.mp h).1
  · rw [Nat.add_zero]

/-- What a schedule has of the things needed before a horizon, after a reference. -/
theorem card_soon_demand {t' : Finset α} (h : Demand W t r t') (refs : List α) (τ : WithTop ℕ) :
    (soon refs τ t').card ≤ (soon refs τ (t.erase r)).card + if nextUse r refs < τ then 1 else 0 := by
  rw [← card_soon_insert (Finset.notMem_erase r t)]
  apply Finset.card_le_card
  intro x hx
  obtain ⟨hmem, hsoon⟩ := mem_soon.mp hx
  refine mem_soon.mpr ⟨?_, hsoon⟩
  rcases Finset.mem_insert.mp (h.sub hmem) with rfl | hold
  · exact Finset.mem_insert_self ..
  · by_cases hx : x = r
    · exact hx ▸ Finset.mem_insert_self ..
    · exact Finset.mem_insert_of_mem (Finset.mem_erase.mpr ⟨hx, hold⟩)

/-- Nor more than fit beside what was just referenced. -/
theorem card_soon_le {t' : Finset α} (h : Demand W t r t') (refs : List α) (τ : WithTop ℕ) :
    (soon refs τ t').card + (if nextUse r refs < τ then 0 else 1) ≤ W := by
  split_ifs with hsoon
  · exact (Finset.card_filter_le ..).trans h.card
  · have hlt : (soon refs τ t').card < t'.card := by
      apply Finset.card_lt_card
      refine ⟨Finset.filter_subset .., fun hall => hsoon (mem_soon.mp (hall h.mem)).2⟩
    exact lt_of_lt_of_le hlt h.card

/-- A farthest eviction loses nothing that is needed before a horizon, unless everything is. -/
theorem card_soon_farthest {s' : Finset α} (h : Farthest W refs s r s') :
    (soon refs τ s').card = (soon refs τ (s.erase r)).card + (if nextUse r refs < τ then 1 else 0) ∨
      W ≤ (soon refs τ s').card + (if nextUse r refs < τ then 0 else 1) := by
  by_cases hmem : r ∈ s
  · left
    rw [h.hit hmem, ← card_soon_insert (Finset.notMem_erase r s), Finset.insert_erase hmem]
  have herase : s.erase r = s := Finset.erase_eq_of_notMem hmem
  by_cases hroom : s.card < W
  · left
    rw [h.room hmem hroom, card_soon_insert hmem, herase]
  obtain ⟨v, hv, hfar, rfl⟩ := h.full hmem (not_lt.mp hroom)
  have hfresh : r ∉ s.erase v := fun hr => hmem (Finset.mem_of_mem_erase hr)
  rw [card_soon_insert hfresh, soon_erase]
  by_cases hsoon : nextUse v refs < τ
  · -- what is evicted was needed before the horizon, and then so is all that stays
    right
    have hall : soon refs τ s = s := by
      apply Finset.filter_true_of_mem
      exact fun x hx => lt_of_le_of_lt (hfar x hx) hsoon
    have hcard := Finset.card_erase_add_one hv
    rw [hall]
    split_ifs <;> omega
  · left
    have hstays : (soon refs τ s).erase v = soon refs τ s := by
      apply Finset.erase_eq_of_notMem
      exact fun hv => hsoon (mem_soon.mp hv).2
    rw [hstays, herase]

/-- How far behind a schedule of farthest evictions is after a reference: a miss that only it has is made up
for, and one that only the other has falls due. -/
theorem Behind.step {s' t' : Finset α} (h : Behind c (r :: refs) s t) (hs : Farthest W refs s r s')
    (ht : Demand W t r t') : (if r ∈ t then 1 else 0) ≤ c + (if r ∈ s then 1 else 0) ∧
      Behind (c + (if r ∈ s then 1 else 0) - (if r ∈ t then 1 else 0)) refs s' t' := by
  have hcons : ∀ τ, (soon refs τ (t.erase r)).card + (if r ∈ t then 1 else 0) ≤
      (soon refs τ (s.erase r)).card + (if r ∈ s then 1 else 0) + c := by
    intro τ
    have hτ := h (τ + 1)
    rwa [card_soon_cons, card_soon_cons] at hτ
  have hdue : (if r ∈ t then 1 else 0) ≤ c + (if r ∈ s then 1 else 0) := by
    have hzero := hcons 0
    have hnone : soon refs 0 (s.erase r) = ∅ := Finset.filter_false_of_mem fun x _ => not_lt_zero
    rw [hnone, Finset.card_empty] at hzero
    omega
  refine ⟨hdue, fun τ => ?_⟩
  have hτ := hcons τ
  have hdemand := card_soon_demand ht refs τ
  have hfits := card_soon_le ht refs τ
  rcases card_soon_farthest (τ := τ) hs with hkept | hall
  · omega
  · omega

/-- A schedule of farthest evictions misses no more than another, but for what it is behind. -/
theorem misses_le {W c : ℕ} {refs : List α} {s t : Finset α} {schedule other : List (Finset α)}
    (h : Behind c refs s t) (hs : FarthestSchedule W refs s schedule) (ht : Serves W refs t other) :
    misses refs s schedule ≤ misses refs t other + c := by
  induction refs generalizing c s t schedule other with
  | nil =>
    cases hs
    exact Nat.zero_le _
  | cons r refs ih =>
    cases schedule with
    | nil => exact hs.elim
    | cons s' schedule =>
      cases other with
      | nil => exact ht.elim
      | cons t' other =>
        obtain ⟨hdue, hbehind⟩ := h.step hs.1 ht.1
        have hrest := ih hbehind hs.2 ht.2
        unfold misses
        split_ifs at hdue hrest ⊢ <;> omega

/-- From the same set, it misses no more than any. -/
theorem farthest_misses_le {W : ℕ} {refs : List α} {s : Finset α} {schedule other : List (Finset α)}
    (hs : FarthestSchedule W refs s schedule) (ht : Serves W refs s other) :
    misses refs s schedule ≤ misses refs s other :=
  misses_le (c := 0) (fun _ => le_rfl) hs ht

end Horizon

end Grxcp.Paging
