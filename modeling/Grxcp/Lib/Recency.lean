import Mathlib.Data.Finset.Card
import Mathlib.Data.List.DropRight
import Mathlib.Tactic.Ring

/-!
# Least recently used

What has been referenced, in the order of the last reference to each, does not depend on how much is held: a
cache of `W` that lets go of what was used least recently holds the `W` at the end of that order (`cached`). So
a reference is found exactly when fewer than `W` others have come since the last one to it
(`mem_cached_iff`), and what is found with `W` is found with more (`cached_mono`).
-/

namespace Grxcp.Recency

variable {α : Type*} [DecidableEq α]

/-! ## The order of the last references -/

/-- What has been referenced, least recently used first. -/
def recency (refs : List α) : List α :=
  refs.foldl (fun s r => s.erase r ++ [r]) []

/-- What a cache of `W` holds. -/
def cached (W : ℕ) (refs : List α) : List α :=
  (recency refs).rtake W

theorem recency_concat (refs : List α) (r : α) : recency (refs ++ [r]) = (recency refs).erase r ++ [r] := by
  unfold recency
  rw [List.foldl_append, List.foldl_cons, List.foldl_nil]

theorem nodup_recency (refs : List α) : (recency refs).Nodup := by
  induction refs using List.reverseRecOn with
  | nil => exact List.nodup_nil
  | append_singleton refs r ih =>
    rw [recency_concat, List.nodup_append_comm]
    exact List.nodup_cons.mpr ⟨ih.not_mem_erase, ih.erase r⟩

@[simp] theorem mem_recency (refs : List α) (x : α) : x ∈ recency refs ↔ x ∈ refs := by
  induction refs using List.reverseRecOn with
  | nil => exact Iff.rfl
  | append_singleton refs r ih =>
    rw [recency_concat, List.mem_append, (nodup_recency refs).mem_erase_iff, ih, List.mem_append,
      List.mem_singleton]
    tauto

theorem length_recency (refs : List α) : (recency refs).length = refs.toFinset.card := by
  have hset : (recency refs).toFinset = refs.toFinset := by
    ext x
    rw [List.mem_toFinset, List.mem_toFinset, mem_recency]
  rw [← hset, List.toFinset_card_of_nodup (nodup_recency refs)]

/-- What comes later goes behind what it does not refer to. -/
theorem recency_append (a b : List α) : recency (a ++ b) = (recency a).filter (· ∉ b) ++ recency b := by
  induction b using List.reverseRecOn with
  | nil =>
    have hall : ∀ x ∈ recency a, decide (x ∉ ([] : List α)) = true := fun x _ => decide_eq_true List.not_mem_nil
    rw [List.append_nil, List.filter_eq_self.mpr hall]
    exact (List.append_nil _).symm
  | append_singleton b r ih =>
    have hnodup := nodup_recency (a ++ b)
    rw [← List.append_assoc, recency_concat, hnodup.erase_eq_filter, ih, List.filter_append, List.filter_filter,
      recency_concat b r, (nodup_recency b).erase_eq_filter, List.append_assoc]
    apply congrArg (· ++ _)
    apply List.filter_congr
    intro x _
    rw [Bool.eq_iff_iff]
    simp [and_comm]

@[simp] theorem cached_nil (W : ℕ) : cached W ([] : List α) = [] :=
  List.drop_nil

theorem cached_mono {W W' : ℕ} (h : W ≤ W') (refs : List α) : cached W refs ⊆ cached W' refs := by
  intro x hx
  unfold cached List.rtake at hx ⊢
  have hle : (recency refs).length - W' ≤ (recency refs).length - W := Nat.sub_le_sub_left h _
  exact (List.drop_sublist_drop_left _ hle).subset hx

/-! ## One reference -/

omit [DecidableEq α] in
private theorem rtake_append_of_full {d c : List α} {W : ℕ} (h : c.length = W ∨ d = [] ∧ c.length ≤ W) :
    (d ++ c).rtake W = c := by
  unfold List.rtake
  rw [List.length_append]
  rcases h with hfull | ⟨rfl, hle⟩
  · rw [← hfull, Nat.add_sub_cancel, List.drop_left]
  · rw [List.length_nil, Nat.zero_add, Nat.sub_eq_zero_of_le hle]
    rfl

/-- What is held is the end of the order, and either there is no room or it is all of it. -/
theorem exists_cached (W : ℕ) (refs : List α) :
    ∃ old, recency refs = old ++ cached W refs ∧
      ((cached W refs).length = W ∨ old = [] ∧ (cached W refs).length < W) := by
  refine ⟨(recency refs).rdrop W, (List.take_append_drop ..).symm, ?_⟩
  have hlen : (cached W refs).length = (recency refs).length - ((recency refs).length - W) := List.length_drop ..
  rcases Nat.lt_or_ge (recency refs).length W with hlt | hge
  · refine Or.inr ⟨?_, by omega⟩
    unfold List.rdrop
    rw [Nat.sub_eq_zero_of_le hlt.le, List.take_zero]
  · exact Or.inl (by omega)

/-- What is found moves to the end. -/
theorem cached_hit {W : ℕ} {refs : List α} {r : α} (h : r ∈ cached W refs) :
    cached W (refs ++ [r]) = (cached W refs).erase r ++ [r] := by
  obtain ⟨old, hsplit, hroom⟩ := exists_cached W refs
  have hnodup := nodup_recency refs
  have hlen := List.length_erase_of_mem h
  have hpos := List.length_pos_of_mem h
  rw [hsplit] at hnodup
  have hnot : r ∉ old := fun hold => List.disjoint_of_nodup_append hnodup hold h
  generalize hheld : cached W refs = held at *
  unfold cached
  rw [recency_concat, hsplit, List.erase_append_right _ hnot, List.append_assoc]
  apply rtake_append_of_full
  rw [List.length_append, List.length_singleton, hlen, Nat.sub_add_cancel hpos]
  exact hroom.imp id fun h => ⟨h.1, h.2.le⟩

/-- What is not found comes in at the end, and the first goes if that is one too many. -/
theorem cached_miss {W : ℕ} {refs : List α} {r : α} (h : r ∉ cached W refs) :
    cached W (refs ++ [r]) =
      if W < (cached W refs ++ [r]).length then (cached W refs ++ [r]).tail else cached W refs ++ [r] := by
  obtain ⟨old, hsplit, hroom⟩ := exists_cached W refs
  generalize hheld : cached W refs = held at *
  have herase : (old ++ held).erase r = old.erase r ++ held := by
    by_cases hold : r ∈ old
    · exact List.erase_append_left _ hold
    · rw [List.erase_append_right _ hold, List.erase_of_not_mem h, List.erase_of_not_mem hold]
  unfold cached
  rw [recency_concat, hsplit, herase, List.append_assoc]
  have hlen : (held ++ [r]).length = held.length + 1 := by rw [List.length_append, List.length_singleton]
  split_ifs with hlong
  · -- the first of them is just out of the last `W`
    cases hnext : held ++ [r] with
    | nil => exact absurd hnext (List.append_ne_nil_of_right_ne_nil _ (List.cons_ne_nil r []))
    | cons first rest =>
      rw [hnext] at hlen hlong
      rw [List.length_cons] at hlen hlong
      rw [List.append_cons, List.tail_cons]
      apply rtake_append_of_full
      omega
  · apply rtake_append_of_full
    rcases hroom with hfull | ⟨rfl, hlt⟩
    · omega
    · exact Or.inr ⟨rfl, by omega⟩

/-- A reference is found exactly when fewer than `W` others have come since the last one to it. -/
theorem mem_cached_iff {W : ℕ} {r : α} (a : List α) {mid : List α} (hmid : r ∉ mid) :
    r ∈ cached W (a ++ r :: mid) ↔ mid.toFinset.card < W := by
  have hsplit : recency (a ++ r :: mid) = ((recency a).erase r).filter (· ∉ mid) ++ r :: recency mid := by
    rw [List.append_cons, recency_append, recency_concat, List.filter_append, List.filter_cons,
      if_pos (decide_eq_true hmid), List.append_assoc]
    rfl
  have hnodup := nodup_recency (a ++ r :: mid)
  unfold cached List.rtake
  rw [← length_recency]
  rw [hsplit] at hnodup ⊢
  generalize ((recency a).erase r).filter (· ∉ mid) = old at *
  have hold : r ∉ old := fun h => List.disjoint_of_nodup_append hnodup h List.mem_cons_self
  have hlater : r ∉ recency mid := (List.nodup_cons.mp hnodup.of_append_right).1
  rw [List.length_append, List.length_cons]
  rcases Nat.lt_or_ge (recency mid).length W with hlt | hge
  · have hle : old.length + ((recency mid).length + 1) - W ≤ old.length := by omega
    rw [List.drop_append_of_le_length hle]
    exact iff_of_true (List.mem_append_right _ List.mem_cons_self) hlt
  · have hdrop : old.length + ((recency mid).length + 1) - W =
        old.length + ((recency mid).length - W + 1) := by omega
    rw [hdrop, List.drop_length_add_append, List.drop_succ_cons]
    exact iff_of_false (fun h => hlater (List.mem_of_mem_drop h)) (not_lt.mpr hge)

/-- What has never been referenced is not found. -/
theorem not_mem_cached {W : ℕ} {refs : List α} {r : α} (h : r ∉ refs) : r ∉ cached W refs :=
  fun hr => h ((mem_recency refs r).mp (List.mem_of_mem_drop hr))

/-! ## What is brought in -/

/-- The references that are not found as they come, after those of `before`. -/
def loads (W : ℕ) : List α → List α → ℕ
  | _, [] => 0
  | before, r :: refs => (if r ∈ cached W before then 0 else 1) + loads W (before ++ [r]) refs

theorem loads_append (W : ℕ) (before a b : List α) :
    loads W before (a ++ b) = loads W before a + loads W (before ++ a) b := by
  induction a generalizing before with
  | nil =>
    rw [List.append_nil, loads, Nat.zero_add]
    rfl
  | cons r a ih => rw [List.cons_append, loads, loads, ih, ← List.append_cons, Nat.add_assoc]

theorem loads_concat (W : ℕ) (before refs : List α) (r : α) :
    loads W before (refs ++ [r]) = loads W before refs + if r ∈ cached W (before ++ refs) then 0 else 1 := by
  rw [loads_append, loads, loads, Nat.add_zero]

theorem loads_anti {W W' : ℕ} (h : W ≤ W') (before refs : List α) : loads W' before refs ≤ loads W before refs := by
  induction refs generalizing before with
  | nil => exact le_rfl
  | cons r refs ih =>
    apply Nat.add_le_add _ (ih _)
    have hmono := @cached_mono α _ W W' h before r
    split_ifs with hmore hfew
    · exact le_rfl
    · exact Nat.zero_le 1
    · exact absurd (hmono ‹_›) hmore
    · exact le_rfl

/-- Nothing is found. -/
theorem loads_eq_length {W : ℕ} {before refs : List α}
    (h : ∀ pre r post, refs = pre ++ r :: post → r ∉ cached W (before ++ pre)) :
    loads W before refs = refs.length := by
  induction refs using List.reverseRecOn with
  | nil => rfl
  | append_singleton refs r ih =>
    have hbefore : loads W before refs = refs.length := by
      apply ih
      intro pre x post hsplit
      apply h pre x (post ++ [r])
      rw [hsplit, List.append_assoc, List.cons_append]
    rw [loads_concat, hbefore, if_neg (h refs r [] rfl), List.length_append, List.length_singleton]

/-- All is found. -/
theorem loads_eq_zero {W : ℕ} {before refs : List α}
    (h : ∀ pre r post, refs = pre ++ r :: post → r ∈ cached W (before ++ pre)) : loads W before refs = 0 := by
  induction refs using List.reverseRecOn with
  | nil => rfl
  | append_singleton refs r ih =>
    have hbefore : loads W before refs = 0 := by
      apply ih
      intro pre x post hsplit
      apply h pre x (post ++ [r])
      rw [hsplit, List.append_assoc, List.cons_append]
    rw [loads_concat, hbefore, if_pos (h refs r [] rfl)]

/-! ## Cyclic references -/

omit [DecidableEq α] in
theorem length_flatten_replicate (n : ℕ) (ids : List α) :
    (List.replicate n ids).flatten.length = n * ids.length := by
  rw [List.length_flatten, List.map_replicate, List.sum_replicate_nat]

/-- Different things, none of which has been referenced, are all brought in. -/
theorem loads_fresh {W : ℕ} {before ids : List α} (hids : ids.Nodup) (hnew : before.Disjoint ids) :
    loads W before ids = ids.length := by
  apply loads_eq_length
  rintro pre r post rfl
  apply not_mem_cached
  intro hr
  rcases List.mem_append.mp hr with hr | hr
  · exact hnew hr (List.mem_append_right _ List.mem_cons_self)
  · exact List.disjoint_of_nodup_append hids hr List.mem_cons_self

/-- The same ones in the same order once more: all the others have come since the last reference to each, so
either there is room for all of them or none is found. -/
theorem loads_again (W : ℕ) (before : List α) {ids : List α} (hids : ids.Nodup) :
    loads W (before ++ ids) ids = if ids.length ≤ W then 0 else ids.length := by
  have hcard : ∀ pre r post, ids = pre ++ r :: post →
      (r ∈ cached W (before ++ ids ++ pre) ↔ ids.length ≤ W) := by
    rintro pre r post rfl
    have hothers : (post ++ pre).Nodup ∧ r ∉ post ++ pre := by
      have hcycle : (r :: (post ++ pre)).Nodup := by
        rw [← List.cons_append, List.nodup_append_comm]
        exact hids
      exact ⟨(List.nodup_cons.mp hcycle).2, (List.nodup_cons.mp hcycle).1⟩
    have hsplit : before ++ (pre ++ r :: post) ++ pre = before ++ pre ++ r :: (post ++ pre) := by
      simp only [List.append_assoc, List.cons_append]
    rw [hsplit, mem_cached_iff _ hothers.2, List.toFinset_card_of_nodup hothers.1]
    simp only [List.length_append, List.length_cons]
    omega
  split_ifs with hfits
  · exact loads_eq_zero fun pre r post hsplit => (hcard pre r post hsplit).mpr hfits
  · exact loads_eq_length fun pre r post hsplit => mt (hcard pre r post hsplit).mp hfits

theorem loads_more (W : ℕ) (before : List α) {ids : List α} (hids : ids.Nodup) (n : ℕ) :
    loads W (before ++ ids) (List.replicate n ids).flatten = n * if ids.length ≤ W then 0 else ids.length := by
  induction n generalizing before with
  | zero =>
    rw [Nat.zero_mul]
    rfl
  | succ n ih =>
    rw [List.replicate_succ, List.flatten_cons, loads_append, loads_again W before hids, ih]
    ring

/-- A cycle of different things is brought in once where there is room for it, and at every reference where
there is not. -/
theorem loads_cycle (W : ℕ) {before ids : List α} (hids : ids.Nodup) (hnew : before.Disjoint ids) (n : ℕ) :
    loads W before (List.replicate (n + 1) ids).flatten =
      if ids.length ≤ W then ids.length else (List.replicate (n + 1) ids).flatten.length := by
  rw [List.replicate_succ, List.flatten_cons, loads_append, loads_fresh hids hnew, loads_more W before hids]
  split_ifs with hfits
  · rw [Nat.mul_zero, Nat.add_zero]
  · rw [List.length_append, length_flatten_replicate]

/-- Cycles one after the other, which have nothing in common, are each as they are alone. -/
theorem loads_phases (W P : ℕ) {before : List α} {phases : List (List α)} (n : ℕ)
    (hnodup : ∀ ids ∈ phases, ids.Nodup) (hlen : ∀ ids ∈ phases, ids.length = P)
    (hapart : phases.Pairwise List.Disjoint) (hnew : ∀ ids ∈ phases, before.Disjoint ids) :
    loads W before (phases.flatMap fun ids => (List.replicate (n + 1) ids).flatten) =
      phases.length * if P ≤ W then P else (n + 1) * P := by
  induction phases generalizing before with
  | nil =>
    rw [List.length_nil, Nat.zero_mul]
    rfl
  | cons ids phases ih =>
    obtain ⟨hfirst, hrest⟩ := List.pairwise_cons.mp hapart
    have hlater : ∀ next ∈ phases, (before ++ (List.replicate (n + 1) ids).flatten).Disjoint next := by
      intro next hnext x hx
      rcases List.mem_append.mp hx with hx | hx
      · exact hnew next (List.mem_cons_of_mem _ hnext) hx
      · obtain ⟨same, hsame, hx⟩ := List.mem_flatten.mp hx
        rw [List.eq_of_mem_replicate hsame] at hx
        exact hfirst next hnext hx
    rw [List.flatMap_cons, loads_append,
      loads_cycle W (hnodup ids List.mem_cons_self) (hnew ids List.mem_cons_self),
      ih (fun next h => hnodup next (List.mem_cons_of_mem _ h))
        (fun next h => hlen next (List.mem_cons_of_mem _ h)) hrest hlater,
      length_flatten_replicate, hlen ids List.mem_cons_self, List.length_cons]
    ring

end Grxcp.Recency
