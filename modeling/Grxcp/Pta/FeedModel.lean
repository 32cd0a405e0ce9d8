import Mathlib.Algebra.Order.Group.Finset
import Mathlib.Data.Finset.Lattice.Fold
import Mathlib.Tactic

/-!
# The race for the rows of the activations

`pta_feed_model.py`: the core wants a row when it is done with the one before, and the feed lands the rows one
after another. `race` is what the core waits, and `margin` is how early the feed is at its tightest row. A stall
moves the clock that the next row is measured against, so the waits of all rows add up to the latest of them
(`raceOf_eq`).
-/

namespace Grxcp.FeedModel

/-! ## The race and its margin -/

/-- `FIRST_ROW`. -/
def firstRow : ℤ := 1

/-- `lands`: when a row lands. -/
def landing (per : ℤ) (r : ℕ) : ℤ :=
  firstRow + r * per

/-- The state of `race`. -/
structure Race where
  t : ℤ
  wait : ℤ := 0

/-- A row of `race`. -/
def raceStep (lands : ℕ → ℤ) (rowTime : ℤ) (s : Race) (r : ℕ) : Race :=
  let t := s.t + rowTime
  if t ≤ lands r then { t := lands r + 1, wait := s.wait + (lands r + 1 - t) } else { s with t }

/-- The loop of `race`, for rows that land when they are said to. -/
def raceOf (lands : ℕ → ℤ) (start rowTime : ℤ) (m : ℕ) : ℤ :=
  ((List.range' 1 (m - 1)).foldl (raceStep lands rowTime) { t := start }).wait

/-- `race`. -/
def race (start rowTime per : ℤ) (m : ℕ) : ℤ :=
  raceOf (landing per) start rowTime m

/-- The state of `margin`. -/
structure Margin where
  t : ℤ
  out : Option ℤ := none

/-- A row of `margin`. -/
def marginStep (lands : ℕ → ℤ) (rowTime : ℤ) (s : Margin) (r : ℕ) : Margin :=
  let t := s.t + rowTime
  let slack := t - lands r
  { t := if t ≤ lands r then lands r + 1 else t
    out := some (s.out.elim slack (min · slack)) }

/-- `margin`. -/
def margin (start rowTime per : ℤ) (m : ℕ) : Option ℤ :=
  ((List.range' 1 (m - 1)).foldl (marginStep (landing per) rowTime) { t := start }).out

/-! ## One row after another -/

section Rows

variable {lands : ℕ → ℤ} {start rowTime : ℤ}

/-- How late a row is for a core that has not waited. It is early by a cycle if it lands before it is wanted. -/
def lateness (lands : ℕ → ℤ) (start rowTime : ℤ) (r : ℕ) : ℤ :=
  lands r + 1 - (start + r * rowTime)

/-- The latest of the first rows, if one is late. -/
def latest (lands : ℕ → ℤ) (start rowTime : ℤ) : ℕ → ℤ
  | 0 => 0
  | n + 1 => max (latest lands start rowTime n) (lateness lands start rowTime (n + 1))

theorem latest_le_iff {n : ℕ} {c : ℤ} :
    latest lands start rowTime n ≤ c ↔ 0 ≤ c ∧ ∀ r ∈ Finset.Ico 1 (n + 1), lateness lands start rowTime r ≤ c := by
  induction n with
  | zero =>
    rw [latest, Finset.Ico_self]
    exact (and_iff_left fun r hr => absurd hr (Finset.notMem_empty r)).symm
  | succ n ih =>
    have hrows : ∀ r, r ∈ Finset.Ico 1 (n + 1 + 1) ↔ r ∈ Finset.Ico 1 (n + 1) ∨ r = n + 1 := by
      intro r
      rw [Finset.mem_Ico, Finset.mem_Ico]
      omega
    rw [latest, max_le_iff, ih, and_assoc]
    apply and_congr_right
    intro _
    constructor
    · rintro ⟨hrest, hlast⟩ r hr
      rcases (hrows r).mp hr with hr | rfl
      · exact hrest r hr
      · exact hlast
    · intro hall
      exact ⟨fun r hr => hall r ((hrows r).mpr (.inl hr)), hall (n + 1) ((hrows (n + 1)).mpr (.inr rfl))⟩

theorem latest_nonneg (n : ℕ) : 0 ≤ latest lands start rowTime n :=
  (latest_le_iff.mp le_rfl).1

/-- The clock is behind the core that has not waited by what it has waited. -/
theorem race_run (n : ℕ) : (List.range' 1 n).foldl (raceStep lands rowTime) { t := start } =
    { t := start + n * rowTime + latest lands start rowTime n, wait := latest lands start rowTime n } := by
  induction n with
  | zero =>
    rw [latest, Nat.cast_zero, zero_mul, add_zero, add_zero]
    rfl
  | succ n ih =>
    have hlate : lateness lands start rowTime (n + 1) = lands (1 + n) + 1 - (start + n * rowTime + rowTime) := by
      rw [lateness, Nat.add_comm n 1, Nat.cast_add, Nat.cast_one]
      ring
    rw [List.range'_1_concat, List.foldl_append, ih, List.foldl_cons, List.foldl_nil, latest, hlate, raceStep,
      Nat.cast_add, Nat.cast_one, add_mul, one_mul]
    dsimp only
    split_ifs with hwait
    · rw [max_eq_right (by linarith), Race.mk.injEq]
      constructor
      · ring
      · ring
    · rw [max_eq_left (by linarith), Race.mk.injEq]
      constructor
      · ring
      · rfl

/-- The waits of all rows are the lateness of the latest. -/
theorem raceOf_eq (lands : ℕ → ℤ) (start rowTime : ℤ) (m : ℕ) :
    raceOf lands start rowTime m = latest lands start rowTime (m - 1) := by
  rw [raceOf, race_run]

theorem raceOf_eq_zero_iff {m : ℕ} (hm : 2 ≤ m) :
    raceOf lands start rowTime m = 0 ↔ ∀ r ∈ Finset.Ico 1 m, lateness lands start rowTime r ≤ 0 := by
  have hrows : m - 1 + 1 = m := by omega
  rw [raceOf_eq, ← (latest_nonneg (m - 1)).ge_iff_eq', latest_le_iff, hrows]
  exact and_iff_right le_rfl

/-- As long as the core has not waited, the margin is the least slack of a core that does not wait; then there is
none. -/
structure Kept (lands : ℕ → ℤ) (start rowTime : ℤ) (n : ℕ) (s : Margin) : Prop where
  t : s.t = start + n * rowTime + latest lands start rowTime n
  least : latest lands start rowTime n = 0 → ∀ c, (∀ g ∈ s.out, c ≤ g) ↔
    ∀ r ∈ Finset.Ico 1 (n + 1), c ≤ 1 - lateness lands start rowTime r
  waited : 0 < latest lands start rowTime n → ∃ g ∈ s.out, g ≤ 0

/-- What is least of some and of another. -/
theorem le_elim_min_iff {out : Option ℤ} {c slack : ℤ} :
    c ≤ out.elim slack (min · slack) ↔ (∀ g ∈ out, c ≤ g) ∧ c ≤ slack := by
  cases out with
  | none => exact (and_iff_right fun g hg => absurd hg (Option.not_mem_none g)).symm
  | some g =>
    rw [Option.elim_some, le_min_iff]
    apply and_congr_left
    intro _
    exact ⟨fun hc g' hg' => Option.some.inj hg' ▸ hc, fun hall => hall g rfl⟩

theorem Kept.step {n : ℕ} {s : Margin} (h : Kept lands start rowTime n s) :
    Kept lands start rowTime (n + 1) (marginStep lands rowTime s (1 + n)) := by
  have hrow : n + 1 = 1 + n := Nat.add_comm n 1
  have hclock : s.t + rowTime = start + (n + 1 : ℕ) * rowTime + latest lands start rowTime n := by
    rw [h.t, Nat.cast_add, Nat.cast_one]
    ring
  have hslack : s.t + rowTime - lands (1 + n) =
      1 - lateness lands start rowTime (n + 1) + latest lands start rowTime n := by
    rw [hclock, lateness, hrow]
    ring
  have hnonneg : 0 ≤ latest lands start rowTime n := latest_nonneg n
  have hrows : Finset.Ico 1 (n + 1 + 1) = insert (n + 1) (Finset.Ico 1 (n + 1)) := by
    rw [Finset.insert_Ico_right_eq_Ico_add_one (by omega)]
  refine ⟨?_, fun hzero c => ?_, fun hpos => ⟨_, rfl, ?_⟩⟩
  · show (if s.t + rowTime ≤ lands (1 + n) then lands (1 + n) + 1 else s.t + rowTime) = _
    rw [latest]
    split_ifs with hwait
    · rw [max_eq_right (by linarith), lateness, hrow]
      ring
    · rw [max_eq_left (by linarith), hclock]
  · have hsome : ∀ x : ℤ, (∀ g ∈ some x, c ≤ g) ↔ c ≤ x :=
      fun x => ⟨fun hall => hall x rfl, fun hc g hg => Option.some.inj hg ▸ hc⟩
    rw [latest] at hzero
    have hbefore : latest lands start rowTime n = 0 := by
      have hle := le_max_left (latest lands start rowTime n) (lateness lands start rowTime (n + 1))
      linarith
    refine (hsome _).trans ?_
    rw [le_elim_min_iff, h.least hbefore, hslack, hbefore, add_zero, hrows, Finset.forall_mem_insert]
    exact and_comm
  · have hmin : s.out.elim (s.t + rowTime - lands (1 + n)) (min · (s.t + rowTime - lands (1 + n))) ≤
        s.t + rowTime - lands (1 + n) := (le_elim_min_iff.mp le_rfl).2
    rcases hnonneg.eq_or_lt with hzero | hbefore
    · -- it is this row that the core waits for
      rw [latest, ← hzero] at hpos
      have hlate : 0 < lateness lands start rowTime (n + 1) := (lt_max_iff.mp hpos).resolve_left (lt_irrefl 0)
      refine hmin.trans ?_
      rw [hslack, ← hzero]
      linarith
    · obtain ⟨g, hg, hle⟩ := h.waited hbefore
      exact ((le_elim_min_iff.mp le_rfl).1 g hg).trans hle

theorem margin_run (n : ℕ) :
    Kept lands start rowTime n ((List.range' 1 n).foldl (marginStep lands rowTime) { t := start }) := by
  induction n with
  | zero =>
    refine ⟨?_, fun _ c => ?_, fun hpos => absurd hpos (lt_irrefl 0)⟩
    · rw [latest, Nat.cast_zero, zero_mul, add_zero, add_zero]
      rfl
    · rw [Finset.Ico_self]
      exact iff_of_true (fun g hg => absurd hg (Option.not_mem_none g)) fun r hr => absurd hr (Finset.notMem_empty r)
  | succ n ih =>
    rw [List.range'_1_concat, List.foldl_append]
    exact ih.step

end Rows

/-! ## The two together -/

/-- There is a margin where there is a row to race for. -/
theorem exists_margin (start rowTime per : ℤ) {m : ℕ} (hm : 2 ≤ m) : ∃ g, margin start rowTime per m = some g := by
  obtain ⟨n, rfl⟩ : ∃ n, m = n + 1 + 1 := ⟨m - 2, by omega⟩
  unfold margin
  rw [Nat.add_sub_cancel, List.range'_1_concat, List.foldl_append]
  exact ⟨_, rfl⟩

/-- The margin is positive if no row is late, and then it is the least slack. -/
theorem margin_spec {start rowTime per g : ℤ} {m : ℕ} (hm : 2 ≤ m) (hg : margin start rowTime per m = some g) :
    (0 < g ↔ ∀ r ∈ Finset.Ico 1 m, lateness (landing per) start rowTime r ≤ 0) ∧
      (0 < g → ∀ c, c ≤ g ↔ ∀ r ∈ Finset.Ico 1 m, c ≤ 1 - lateness (landing per) start rowTime r) := by
  have hkept : Kept (landing per) start rowTime (m - 1)
      ((List.range' 1 (m - 1)).foldl (marginStep (landing per) rowTime) { t := start }) := margin_run (m - 1)
  have hrows : m - 1 + 1 = m := by omega
  have hsome : ∀ c, (∀ x ∈ margin start rowTime per m, c ≤ x) ↔ c ≤ g := by
    intro c
    rw [hg]
    exact ⟨fun hall => hall g rfl, fun hc x hx => Option.some.inj hx ▸ hc⟩
  have hpos : 0 < g → latest (landing per) start rowTime (m - 1) = 0 := by
    intro hg'
    rcases (latest_nonneg (m - 1)).eq_or_lt with hzero | hlate
    · exact hzero.symm
    · obtain ⟨x, hx, hle⟩ := hkept.waited hlate
      have hsame : x = g := Option.some.inj (hx.symm.trans hg)
      rw [hsame] at hle
      exact absurd hg' hle.not_gt
  have hleast : 0 < g → ∀ c, c ≤ g ↔ ∀ r ∈ Finset.Ico 1 m, c ≤ 1 - lateness (landing per) start rowTime r := by
    intro hg' c
    rw [← hsome c, ← hrows]
    exact hkept.least (hpos hg') c
  refine ⟨⟨fun hg' r hr => ?_, fun hall => ?_⟩, hleast⟩
  · have hslack := (hleast hg' g).mp le_rfl r hr
    linarith
  · have hzero : latest (landing per) start rowTime (m - 1) = 0 := by
      apply le_antisymm _ (latest_nonneg (m - 1))
      apply latest_le_iff.mpr
      rw [hrows]
      exact ⟨le_rfl, hall⟩
    have hone : (1 : ℤ) ≤ g := by
      rw [← hsome]
      apply (hkept.least hzero 1).mpr
      intro r hr
      rw [hrows] at hr
      have hlate := hall r hr
      linarith
    linarith

/-- The race is the greatest of zero and of how far behind the core each row lands, and it is none just if the
margin is positive. -/
theorem race_closed_form (start rowTime per : ℤ) (m : ℕ) (hm : 2 ≤ m) :
    race start rowTime per m = max 0 ((Finset.Ico 1 m).sup' (Finset.nonempty_Ico.mpr hm)
        fun r => landing per r + 1 - (start + r * rowTime)) ∧
      (race start rowTime per m = 0 ↔ ∃ g, margin start rowTime per m = some g ∧ 0 < g) := by
  have hrows : m - 1 + 1 = m := by omega
  constructor
  · apply eq_of_forall_ge_iff
    intro c
    rw [race, raceOf_eq, latest_le_iff, hrows, max_le_iff, Finset.sup'_le_iff]
    rfl
  · obtain ⟨g, hg⟩ := exists_margin start rowTime per hm
    rw [race, raceOf_eq_zero_iff hm, ← (margin_spec hm hg).1]
    constructor
    · exact fun hpos => ⟨g, hg, hpos⟩
    · rintro ⟨g', hg', hpos⟩
      rw [hg] at hg'
      exact Option.some.inj hg' ▸ hpos

theorem race_closed_form_late : race 3 2 5 4 = max 0 ((Finset.Ico 1 4).sup' (Finset.nonempty_Ico.mpr (by decide))
    fun r => landing 5 r + 1 - (3 + r * 2)) ∧ (race 3 2 5 4 = 0 ↔ ∃ g, margin 3 2 5 4 = some g ∧ 0 < g) :=
  race_closed_form 3 2 5 4 (by decide)

example : race 3 2 5 4 = 8 := by
  decide

/-! ## A link that delays every row -/

/-- The slack of a core that does not wait goes evenly from the first row to the last. -/
theorem slack_between {a b c : ℤ} {m r : ℕ} (hr : r ∈ Finset.Ico 1 m) (hfirst : c ≤ a + 1 * b)
    (hlast : c ≤ a + (m - 1 : ℕ) * b) : c ≤ a + r * b := by
  obtain ⟨hlow, hhigh⟩ := Finset.mem_Ico.mp hr
  have hone : (1 : ℤ) ≤ r := by exact_mod_cast hlow
  have hend : (r : ℤ) ≤ (m - 1 : ℕ) := by
    have hle : r ≤ m - 1 := by omega
    exact_mod_cast hle
  rcases le_total 0 b with hb | hb
  · have hmono := mul_le_mul_of_nonneg_right hone hb
    linarith
  · have hmono := mul_le_mul_of_nonpos_right hend hb
    linarith

/-- How early the tighter of the first row and the last lands. -/
def tightest (start rowTime per : ℤ) (m : ℕ) : ℤ :=
  min (start + rowTime - landing per 1) (start + (m - 1 : ℕ) * rowTime - landing per (m - 1))

theorem margin_eq_tightest {start rowTime per g : ℤ} {m : ℕ} (hm : 2 ≤ m) (hg : margin start rowTime per m = some g)
    (hpos : 0 < g) : g = tightest start rowTime per m := by
  have hslack : ∀ r, 1 - lateness (landing per) start rowTime r = start - firstRow + r * (rowTime - per) := by
    intro r
    rw [lateness, landing]
    ring
  have hfirst : start + rowTime - landing per 1 = start - firstRow + 1 * (rowTime - per) := by
    rw [landing, Nat.cast_one]
    ring
  have hlast : start + (m - 1 : ℕ) * rowTime - landing per (m - 1) =
      start - firstRow + (m - 1 : ℕ) * (rowTime - per) := by
    rw [landing]
    ring
  apply eq_of_forall_le_iff
  intro c
  rw [(margin_spec hm hg).2 hpos, tightest, le_min_iff, hfirst, hlast]
  constructor
  · intro hall
    have hends : ∀ r ∈ Finset.Ico 1 m, c ≤ start - firstRow + r * (rowTime - per) := fun r hr => hslack r ▸ hall r hr
    refine ⟨?_, hends (m - 1) (Finset.mem_Ico.mpr ⟨by omega, by omega⟩)⟩
    have hone := hends 1 (Finset.mem_Ico.mpr ⟨le_rfl, hm⟩)
    rwa [Nat.cast_one] at hone
  · rintro ⟨hone, hend⟩ r hr
    rw [hslack]
    exact slack_between hr hone hend

/-- The margin holds back every delay but the one that lands its tightest row just when the core wants it: within
the margin the race stays zero, and beyond it does not, if and only if the delay is not the slack of that row. -/
theorem margin_budget_iff (start rowTime per : ℤ) (m : ℕ) (hm : 2 ≤ m) (g : ℤ)
    (hg : margin start rowTime per m = some g) (hpos : 0 < g) (L : ℤ) (hL : 0 ≤ L) :
    ((L ≤ g → raceOf (fun r => landing per r + L) start rowTime m = 0) ∧
      (g < L → 0 < raceOf (fun r => landing per r + L) start rowTime m)) ↔ L ≠ tightest start rowTime per m := by
  have hnonneg : 0 ≤ raceOf (fun r => landing per r + L) start rowTime m := by
    rw [raceOf_eq]
    exact latest_nonneg (m - 1)
  have hzero : raceOf (fun r => landing per r + L) start rowTime m = 0 ↔ L < g := by
    rw [raceOf_eq_zero_iff hm, ← Int.add_one_le_iff, (margin_spec hm hg).2 hpos]
    apply forall₂_congr
    intro r _
    have hlate : lateness (fun r => landing per r + L) start rowTime r = lateness (landing per) start rowTime r + L := by
      rw [lateness, lateness]
      ring
    rw [hlate]
    constructor
    · intro h
      linarith
    · intro h
      linarith
  have hlate : 0 < raceOf (fun r => landing per r + L) start rowTime m ↔ ¬L < g := by
    rw [← hzero, hnonneg.lt_iff_ne']
  rw [hzero, hlate, ← margin_eq_tightest hm hg hpos]
  omega

/-- A delay of twice the margin. -/
theorem margin_budget_iff_six : ((12 ≤ (6 : ℤ) → raceOf (fun r => landing 5 r + 12) 2 10 2 = 0) ∧
    ((6 : ℤ) < 12 → 0 < raceOf (fun r => landing 5 r + 12) 2 10 2)) ↔ (12 : ℤ) ≠ tightest 2 10 5 2 :=
  margin_budget_iff 2 10 5 2 (by decide) 6 (by decide) (by decide) 12 (by decide)

/-- A row that the margin lands just when it is wanted is waited for. -/
theorem margin_budget_not : margin 2 10 5 2 = some 6 ∧
    ¬∀ L, 0 ≤ L → (L ≤ 6 → raceOf (fun r => landing 5 r + L) 2 10 2 = 0) ∧
      (6 < L → 0 < raceOf (fun r => landing 5 r + L) 2 10 2) := by
  refine ⟨by decide, fun h => ?_⟩
  have hsix := (h 6 (by decide)).1 le_rfl
  revert hsix
  decide

end Grxcp.FeedModel
