import Mathlib.Data.List.TakeWhile
import Mathlib.Tactic

/-!
# Sweeping over intervals

The most half-open intervals that overlap anywhere, found along the sorted list of their ends: a start counts up,
a stop counts down, and at one place the stops come before the starts. What a prefix of the list has counted is
no more than what overlaps where it ends (`exists_prefix_le`), and what overlaps anywhere is what some prefix
has counted (`exists_prefix_eq`).
-/

namespace Grxcp.Sweep

variable {α : Type*} [LinearOrder α]

/-- The two ends of an interval. -/
def ends (i : α × α) : List (α ×ₗ ℤ) :=
  [toLex (i.1, 1), toLex (i.2, -1)]

/-- The intervals that a place is in. -/
def overlap (is : List (α × α)) (t : α) : ℕ :=
  is.countP fun i => i.1 ≤ t ∧ t < i.2

/-- What the ends up to a place come to. -/
def countTo (t : α) (es : List (α ×ₗ ℤ)) : ℤ :=
  (es.map fun e => if (ofLex e).1 ≤ t then (ofLex e).2 else 0).sum

/-- What all the ends come to. -/
def total (es : List (α ×ₗ ℤ)) : ℤ :=
  (es.map fun e => (ofLex e).2).sum

/-- The count along the ends, and the most it has been. -/
def sweep (es : List (α ×ₗ ℤ)) : ℤ × ℤ :=
  es.foldl (fun s e =>
    let live := s.1 + (ofLex e).2
    (live, if s.2 < live then live else s.2)) (0, 0)

variable {is : List (α × α)} {es : List (α ×ₗ ℤ)} {t : α}

/-- An interval is counted where it has started and not stopped. -/
theorem countTo_ends (his : ∀ i ∈ is, i.1 ≤ i.2) (t : α) : countTo t (is.flatMap ends) = overlap is t := by
  induction is with
  | nil => rfl
  | cons i is ih =>
    have hi := his i List.mem_cons_self
    have hrest := ih fun j hj => his j (List.mem_cons_of_mem _ hj)
    have hone : (if i.1 ≤ t then (1 : ℤ) else 0) + (if i.2 ≤ t then (-1 : ℤ) else 0) =
        if i.1 ≤ t ∧ t < i.2 then 1 else 0 := by
      rcases lt_or_ge t i.2 with hstop | hstop
      · rw [if_neg (not_le.mpr hstop), add_zero]
        exact if_congr (and_iff_left hstop).symm rfl rfl
      · rw [if_pos (hi.trans hstop), if_pos hstop, if_neg fun h => not_le.mpr h.2 hstop]
        rfl
    have hsplit : countTo t ((i :: is).flatMap ends) =
        (if i.1 ≤ t then (1 : ℤ) else 0) + ((if i.2 ≤ t then (-1 : ℤ) else 0) + countTo t (is.flatMap ends)) := rfl
    rw [hsplit, ← add_assoc, hone, hrest, overlap, overlap, List.countP_cons]
    by_cases hin : i.1 ≤ t ∧ t < i.2
    · rw [if_pos hin, if_pos (decide_eq_true hin)]
      push_cast
      exact add_comm ..
    · rw [if_neg hin, if_neg (by rwa [decide_eq_true_eq])]
      push_cast
      exact add_comm ..

theorem countTo_perm {es' : List (α ×ₗ ℤ)} (h : es.Perm es') (t : α) : countTo t es = countTo t es' :=
  (h.map _).sum_eq

theorem countTo_append (t : α) (es es' : List (α ×ₗ ℤ)) : countTo t (es ++ es') = countTo t es + countTo t es' := by
  unfold countTo
  rw [List.map_append, List.sum_append]

theorem total_append (es es' : List (α ×ₗ ℤ)) : total (es ++ es') = total es + total es' := by
  unfold total
  rw [List.map_append, List.sum_append]

/-- Where all the ends are passed, they all count. -/
theorem countTo_of_le (h : ∀ e ∈ es, (ofLex e).1 ≤ t) : countTo t es = total es := by
  unfold countTo total
  congr 1
  apply List.map_congr_left
  exact fun e he => if_pos (h e he)

theorem countTo_of_lt (h : ∀ e ∈ es, t < (ofLex e).1) : countTo t es = 0 := by
  unfold countTo
  apply List.sum_eq_zero
  intro n hn
  obtain ⟨e, he, rfl⟩ := List.mem_map.mp hn
  exact if_neg (not_le.mpr (h e he))

/-- Sorted ends, split where a place is passed. -/
theorem exists_split (hes : es.Pairwise (· ≤ ·)) (t : α) :
    ∃ front back, es = front ++ back ∧ (∀ e ∈ front, (ofLex e).1 ≤ t) ∧ ∀ e ∈ back, t < (ofLex e).1 := by
  refine ⟨es.takeWhile fun e => (ofLex e).1 ≤ t, es.dropWhile fun e => (ofLex e).1 ≤ t,
    List.takeWhile_append_dropWhile.symm, fun e he => ?_, ?_⟩
  · have hpassed := List.mem_takeWhile_imp he
    rwa [decide_eq_true_eq] at hpassed
  · induction es with
    | nil => exact fun e he => absurd he List.not_mem_nil
    | cons e es ih =>
      obtain ⟨hfirst, hrest⟩ := List.pairwise_cons.mp hes
      by_cases he : (ofLex e).1 ≤ t
      · rw [List.dropWhile_cons_of_pos (by rwa [decide_eq_true_eq])]
        exact ih hrest
      · rw [List.dropWhile_cons_of_neg (by rwa [decide_eq_true_eq])]
        intro e' he'
        rcases List.mem_cons.mp he' with rfl | he'
        · exact not_le.mp he
        · have hle := Prod.Lex.monotone_fst _ _ (hfirst e' he')
          exact lt_of_lt_of_le (not_le.mp he) hle

/-- What overlaps at a place is what some prefix of the sorted ends counts. -/
theorem exists_prefix_eq (his : ∀ i ∈ is, i.1 ≤ i.2) (hes : es.Pairwise (· ≤ ·))
    (hperm : es.Perm (is.flatMap ends)) (t : α) :
    ∃ front back, es = front ++ back ∧ total front = overlap is t := by
  obtain ⟨front, back, hsplit, hfront, hback⟩ := exists_split hes t
  refine ⟨front, back, hsplit, ?_⟩
  rw [← countTo_ends his, ← countTo_perm hperm, hsplit, countTo_append, countTo_of_le hfront,
    countTo_of_lt hback, add_zero]

/-- What a prefix counts is no more than what overlaps somewhere. By induction on the prefix: where it ends in a
stop, it has counted more before it; and where it ends in a start, only starts are left at that place. -/
theorem exists_prefix_le [Nonempty α] (his : ∀ i ∈ is, i.1 ≤ i.2) (hes : es.Pairwise (· ≤ ·))
    (hperm : es.Perm (is.flatMap ends)) {front back : List (α ×ₗ ℤ)} (hsplit : es = front ++ back) :
    ∃ t, total front ≤ overlap is t := by
  have hkind : ∀ e ∈ es, (ofLex e).2 = 1 ∨ (ofLex e).2 = -1 := by
    intro e he
    obtain ⟨i, -, hi⟩ := List.mem_flatMap.mp (hperm.mem_iff.mp he)
    rcases List.mem_pair.mp hi with rfl | rfl
    · exact Or.inl rfl
    · exact Or.inr rfl
  induction front using List.reverseRecOn generalizing back with
  | nil =>
    obtain ⟨t⟩ := ‹Nonempty α›
    exact ⟨t, Int.natCast_nonneg _⟩
  | append_singleton front e ih =>
    have hmem : e ∈ es := by
      rw [hsplit]
      exact List.mem_append_left _ (List.mem_append_right _ (List.mem_singleton.mpr rfl))
    rcases hkind e hmem with hstart | hstop
    · -- at the place of a start
      refine ⟨(ofLex e).1, ?_⟩
      rw [hsplit] at hes
      obtain ⟨hfront, hback, hcross⟩ := List.pairwise_append.mp hes
      have hpassed : ∀ e' ∈ front ++ [e], (ofLex e').1 ≤ (ofLex e).1 := by
        intro e' he'
        rcases List.mem_append.mp he' with he' | he'
        · obtain ⟨-, -, hlast⟩ := List.pairwise_append.mp hfront
          exact Prod.Lex.monotone_fst _ _ (hlast e' he' e (List.mem_singleton.mpr rfl))
        · exact (List.mem_singleton.mp he') ▸ le_rfl
      have hmore : 0 ≤ countTo (ofLex e).1 back := by
        apply List.sum_nonneg
        intro n hn
        obtain ⟨e', he', rfl⟩ := List.mem_map.mp hn
        have hle := hcross e (List.mem_append_right _ (List.mem_singleton.mpr rfl)) e' he'
        split_ifs with hplace
        · rcases Prod.Lex.le_iff.mp hle with hlt | ⟨-, hle⟩
          · exact absurd hplace (not_le.mpr hlt)
          · exact (hstart ▸ zero_le_one).trans hle
        · exact le_rfl
      rw [← countTo_ends his, ← countTo_perm hperm, hsplit, countTo_append, countTo_of_le hpassed]
      exact le_add_of_nonneg_right hmore
    · have hsplit' : es = front ++ e :: back := by
        rw [hsplit, List.append_assoc]
        rfl
      obtain ⟨t, ht⟩ := ih hsplit'
      refine ⟨t, ?_⟩
      have hlast : total [e] = -1 := by
        unfold total
        rw [List.map_singleton, List.sum_singleton, hstop]
      rw [total_append, hlast]
      omega

/-- The most that the sweep has counted is the greatest of what its prefixes count. -/
theorem sweep_greatest (es : List (α ×ₗ ℤ)) :
    (sweep es).1 = total es ∧ (∃ front back, es = front ++ back ∧ (sweep es).2 = total front) ∧
      ∀ front back, es = front ++ back → total front ≤ (sweep es).2 := by
  induction es using List.reverseRecOn with
  | nil =>
    refine ⟨rfl, ⟨[], [], rfl, rfl⟩, fun front back h => ?_⟩
    rw [(List.append_eq_nil_iff.mp h.symm).1]
    exact le_rfl
  | append_singleton es e ih =>
    obtain ⟨htotal, ⟨front, back, hsplit, hmost⟩, hle⟩ := ih
    have hstep : sweep (es ++ [e]) = (total (es ++ [e]),
        if (sweep es).2 < total (es ++ [e]) then total (es ++ [e]) else (sweep es).2) := by
      have hlive : (sweep es).1 + (ofLex e).2 = total (es ++ [e]) := by
        rw [htotal, total_append]
        unfold total
        rw [List.map_singleton, List.sum_singleton]
      rw [← hlive]
      unfold sweep
      rw [List.foldl_append]
      rfl
    rw [hstep]
    refine ⟨rfl, ?_, fun front' back' hsplit' => ?_⟩
    · dsimp only
      split_ifs
      · exact ⟨es ++ [e], [], (List.append_nil _).symm, rfl⟩
      · exact ⟨front, back ++ [e], by rw [hsplit, List.append_assoc], hmost⟩
    · have hcases : front' = es ++ [e] ∨ total front' ≤ (sweep es).2 := by
        rcases List.eq_nil_or_concat back' with rfl | ⟨back', e', rfl⟩
        · left
          rw [hsplit', List.append_nil]
        · right
          rw [List.concat_eq_append, ← List.append_assoc] at hsplit'
          exact hle front' back' (List.append_inj_left' hsplit' rfl)
      dsimp only
      rcases hcases with rfl | hold
      · split_ifs with hlt
        · exact le_rfl
        · exact not_lt.mp hlt
      · split_ifs with hlt
        · exact hold.trans hlt.le
        · exact hold

/-- It finds the most intervals that overlap. -/
theorem sweep_isGreatest [Nonempty α] (his : ∀ i ∈ is, i.1 ≤ i.2) (hes : es.Pairwise (· ≤ ·))
    (hperm : es.Perm (is.flatMap ends)) : IsGreatest (Set.range fun t => (overlap is t : ℤ)) (sweep es).2 := by
  obtain ⟨-, ⟨front, back, hsplit, hmost⟩, hle⟩ := sweep_greatest es
  have hupper : ∀ t, (overlap is t : ℤ) ≤ (sweep es).2 := by
    intro t
    obtain ⟨front, back, hsplit, htotal⟩ := exists_prefix_eq his hes hperm t
    rw [← htotal]
    exact hle front back hsplit
  obtain ⟨t, ht⟩ := exists_prefix_le his hes hperm hsplit
  refine ⟨⟨t, (hupper t).antisymm ?_⟩, ?_⟩
  · rw [hmost]
    exact ht
  · rintro n ⟨t, rfl⟩
    exact hupper t

end Grxcp.Sweep
