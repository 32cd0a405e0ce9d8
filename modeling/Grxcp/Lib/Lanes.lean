import Mathlib.Tactic

/-!
# Folds over lanes

The fold of a nonempty run of values under an operation that has no identity. Two neighbouring runs fold
to one (`run_append`), which a doubling scan rests on, and so do the two halves of a run that alternate
(`run_interleave`), which a butterfly rests on.
-/

namespace Grxcp.Lanes

variable {T : Type*} {op : T → T → T}

/-- `v 0`, `v 1`, up to `v n`, from the left. -/
def run (op : T → T → T) (v : ℕ → T) : ℕ → T
  | 0 => v 0
  | n + 1 => op (run op v n) (v (n + 1))

theorem run_congr {v w : ℕ → T} {n : ℕ} (h : ∀ i ≤ n, v i = w i) : run op v n = run op w n := by
  induction n with
  | zero => exact h 0 le_rfl
  | succ n ih =>
    show op (run op v n) (v (n + 1)) = op (run op w n) (w (n + 1))
    rw [ih fun i hi => h i (Nat.le_succ_of_le hi), h (n + 1) le_rfl]

/-- A run and the run after it. -/
theorem run_append (hassoc : ∀ a b c, op (op a b) c = op a (op b c)) (v : ℕ → T) (m n : ℕ) :
    op (run op v m) (run op (fun i => v (m + 1 + i)) n) = run op v (m + 1 + n) := by
  induction n with
  | zero => rfl
  | succ n ih =>
    show op (run op v m) (op (run op (fun i => v (m + 1 + i)) n) (v (m + 1 + (n + 1)))) =
      op (run op v (m + 1 + n)) (v (m + 1 + n + 1))
    rw [← hassoc, ih, Nat.add_assoc (m + 1)]

/-- A run, its even places and its odd ones. -/
theorem run_interleave (hassoc : ∀ a b c, op (op a b) c = op a (op b c)) (hcomm : ∀ a b, op a b = op b a)
    (v : ℕ → T) (n : ℕ) :
    op (run op (fun i => v (2 * i)) n) (run op (fun i => v (2 * i + 1)) n) = run op v (2 * n + 1) := by
  induction n with
  | zero => rfl
  | succ n ih =>
    have hswap : ∀ a b c d, op (op a b) (op c d) = op (op (op a c) b) d := by
      intro a b c d
      calc op (op a b) (op c d) = op a (op b (op c d)) := hassoc ..
        _ = op a (op (op c d) b) := by rw [hcomm b]
        _ = op a (op c (op d b)) := by rw [hassoc c]
        _ = op (op a c) (op b d) := by rw [hcomm d, hassoc a]
        _ = op (op (op a c) b) d := (hassoc ..).symm
    show op (op (run op (fun i => v (2 * i)) n) (v (2 * (n + 1))))
      (op (run op (fun i => v (2 * i + 1)) n) (v (2 * (n + 1) + 1))) =
        op (op (run op v (2 * n + 1)) (v (2 * n + 2))) (v (2 * n + 3))
    rw [hswap, ih]
    rfl

/-! ## The doubling scan -/

/-- What lane `r` holds when a scan has doubled up to `d`: the fold of the `d` lanes that end with it, or
of all that there are. -/
def window (op : T → T → T) (v : ℕ → T) (d r : ℕ) : T :=
  run op (fun i => v (r + 1 - d + i)) (r - (r + 1 - d))

theorem window_one (v : ℕ → T) (r : ℕ) : window op v 1 r = v r := by
  unfold window
  rw [Nat.add_sub_cancel, Nat.sub_self]
  rfl

theorem window_of_lt (v : ℕ → T) {d r : ℕ} (h : r < d) : window op v d r = run op v r := by
  have hstart : r + 1 - d = 0 := by omega
  unfold window
  rw [hstart, Nat.sub_zero]
  exact run_congr fun i _ => by rw [Nat.zero_add]

/-- A window and the one before it. -/
theorem window_double (hassoc : ∀ a b c, op (op a b) c = op a (op b c)) (v : ℕ → T) {d r : ℕ} (hd : 0 < d)
    (h : d ≤ r) : op (window op v d (r - d)) (window op v d r) = window op v (2 * d) r := by
  have happend := run_append hassoc (fun i => v (r - d + 1 - d + i)) (r - d - (r - d + 1 - d)) (d - 1)
  have hlast : (fun i => v (r - d + 1 - d + (r - d - (r - d + 1 - d) + 1 + i))) = fun i => v (r + 1 - d + i) := by
    funext i
    congr 1
    omega
  have hstart : r + 1 - 2 * d = r - d + 1 - d := by omega
  have hcount : r - (r - d + 1 - d) = r - d - (r - d + 1 - d) + 1 + (d - 1) := by omega
  have hwidth : r - (r + 1 - d) = d - 1 := by omega
  unfold window
  rw [hstart, hcount, hwidth, ← happend, hlast]

/-! ## The butterfly -/

/-- What lane `r` holds when a butterfly is down to the stride `s`: the fold of the lanes that are a
multiple of `s` from it, of a tile of `size`. -/
def comb (op : T → T → T) (v : ℕ → T) (size s r : ℕ) : T :=
  run op (fun i => v (r % s + i * s)) (size / s - 1)

theorem comb_self (v : ℕ → T) {size r : ℕ} (h : r < size) : comb op v size size r = v r := by
  unfold comb
  rw [Nat.div_self (Nat.zero_lt_of_lt h), Nat.mod_eq_of_lt h]
  show v (r + 0 * size) = v r
  rw [Nat.zero_mul, Nat.add_zero]

theorem comb_one (v : ℕ → T) (size r : ℕ) : comb op v size 1 r = run op v (size - 1) := by
  unfold comb
  rw [Nat.div_one]
  exact run_congr fun i _ => by rw [Nat.mod_one, Nat.zero_add, Nat.mul_one]

/-- A lane and the one across from it: with one of them in the lower half of the stride. -/
theorem comb_halve (hassoc : ∀ a b c, op (op a b) c = op a (op b c)) (hcomm : ∀ a b, op a b = op b a)
    (v : ℕ → T) {m d r r' : ℕ} (hm : 0 < m) (hd : 0 < d) (hlow : r % (2 * d) < d)
    (hacross : r' % (2 * d) = r % (2 * d) + d) :
    op (comb op v (m * (2 * d)) (2 * d) r) (comb op v (m * (2 * d)) (2 * d) r') =
      comb op v (m * (2 * d)) d r := by
  have hlowMod : r % d = r % (2 * d) := by
    rw [← Nat.mod_mod_of_dvd r (Dvd.intro_left 2 rfl), Nat.mod_eq_of_lt hlow]
  have hcount : m * (2 * d) / (2 * d) = m := Nat.mul_div_cancel _ (by omega)
  have hcount' : m * (2 * d) / d = 2 * m := by
    rw [← Nat.mul_assoc, Nat.mul_div_cancel _ hd, Nat.mul_comm]
  have hlast : 2 * m - 1 = 2 * (m - 1) + 1 := by omega
  have hinterleave := run_interleave hassoc hcomm (fun i => v (r % d + i * d)) (m - 1)
  unfold comb
  rw [hcount, hcount', hlast, ← hinterleave]
  congr 1
  · apply run_congr
    intro i _
    rw [hlowMod]
    congr 1
    ring
  · apply run_congr
    intro i _
    rw [hacross, hlowMod]
    congr 1
    ring

/-- A run of sums is the sum of a list. -/
theorem run_add_eq_sum {T : Type*} [AddCommMonoid T] (v : ℕ → T) (n : ℕ) :
    run (· + ·) v n = ((List.range (n + 1)).map v).sum := by
  induction n with
  | zero =>
    show v 0 = v 0 + 0
    rw [add_zero]
  | succ n ih =>
    show run (· + ·) v n + v (n + 1) = _
    rw [ih, List.range_succ (n := n + 1), List.map_append, List.sum_append]
    exact congrArg _ (add_zero _).symm

/-! ## A walk that the lanes share -/

/-- A loop from `i` on, in steps of `W`, up to `depth`. -/
def walk {S : Type*} (W depth : ℕ) (hW : 0 < W) (step : S → S) (i : ℕ) (s : S) : S :=
  if i < depth then walk W depth hW step (i + W) (step s) else s
termination_by depth - i

/-- Where such a loop goes. -/
def stops (W depth : ℕ) (hW : 0 < W) (i : ℕ) : List ℕ :=
  if i < depth then i :: stops W depth hW (i + W) else []
termination_by depth - i

section Walk

variable {S : Type*} {W depth : ℕ} {hW : 0 < W}

theorem stops_of_lt {i : ℕ} (hi : i < depth) : stops W depth hW i = i :: stops W depth hW (i + W) := by
  rw [stops, if_pos hi]

/-- What each round of a walk keeps of the index and of what it has passed, the walk keeps. -/
theorem walk_spec {step : S → S} {I : ℕ → List ℕ → S → Prop}
    (hstep : ∀ i < depth, ∀ passed s, I i passed s → I (i + W) (passed ++ [i]) (step s)) {i : ℕ} {passed : List ℕ}
    {s : S} (hs : I i passed s) :
    ∃ last, I last (passed ++ stops W depth hW i) (walk W depth hW step i s) := by
  induction i, s using walk.induct W depth hW step generalizing passed with
  | case1 i s hi ih =>
    obtain ⟨last, hlast⟩ := ih (hstep i hi passed s hs)
    refine ⟨last, ?_⟩
    rw [walk, if_pos hi, stops_of_lt hi, List.append_cons]
    exact hlast
  | case2 i s hi =>
    refine ⟨i, ?_⟩
    rw [walk, if_neg hi, stops, if_neg hi, List.append_nil]
    exact hs

theorem mem_stops {i j : ℕ} : j ∈ stops W depth hW i ↔ i ≤ j ∧ j < depth ∧ j % W = i % W := by
  induction i using stops.induct W depth hW with
  | case1 i hi ih =>
    rw [stops_of_lt hi, List.mem_cons, ih, Nat.add_mod_right]
    constructor
    · rintro (rfl | ⟨hle, hlt, hmod⟩)
      · exact ⟨le_rfl, hi, rfl⟩
      · exact ⟨by omega, hlt, hmod⟩
    · rintro ⟨hle, hlt, hmod⟩
      rcases Nat.eq_or_lt_of_le hle with rfl | hbelow
      · exact .inl rfl
      · -- two numbers of one class differ by the stride
        obtain ⟨q, hq⟩ : W ∣ j - i := (Nat.modEq_iff_dvd' hle).mp hmod.symm
        have hq0 : q ≠ 0 := by
          rintro rfl
          omega
        have hge : W ≤ W * q := Nat.le_mul_of_pos_right W (Nat.pos_of_ne_zero hq0)
        exact .inr ⟨by omega, hlt, hmod⟩
  | case2 i hi =>
    rw [stops, if_neg hi]
    constructor
    · intro h
      exact absurd h List.not_mem_nil
    · rintro ⟨hle, hlt, -⟩
      omega

theorem nodup_stops (i : ℕ) : (stops W depth hW i).Nodup := by
  induction i using stops.induct W depth hW with
  | case1 i hi ih =>
    rw [stops_of_lt hi, List.nodup_cons]
    refine ⟨fun hmem => ?_, ih⟩
    have hle := (mem_stops.mp hmem).1
    omega
  | case2 i hi =>
    rw [stops, if_neg hi]
    exact List.nodup_nil

/-- The lanes pass every index once between them. -/
theorem stops_perm : ((List.range W).flatMap (stops W depth hW)).Perm (List.range depth) := by
  rw [List.perm_ext_iff_of_nodup]
  · intro j
    rw [List.mem_flatMap, List.mem_range]
    constructor
    · rintro ⟨lane, -, hj⟩
      exact (mem_stops.mp hj).2.1
    · intro hj
      have hlane := Nat.mod_lt j hW
      refine ⟨j % W, List.mem_range.mpr hlane, mem_stops.mpr ⟨Nat.mod_le j W, hj, ?_⟩⟩
      rw [Nat.mod_mod]
  · rw [List.nodup_flatMap]
    refine ⟨fun lane _ => nodup_stops lane, ?_⟩
    apply List.Nodup.pairwise_of_forall_ne List.nodup_range
    intro lane hlane lane' hlane' hne j hj hj'
    rw [List.mem_range] at hlane hlane'
    have hmod := (mem_stops.mp hj).2.2
    rw [(mem_stops.mp hj').2.2, Nat.mod_eq_of_lt hlane, Nat.mod_eq_of_lt hlane'] at hmod
    exact hne hmod.symm
  · exact List.nodup_range

/-- The sums of the lanes, together. -/
theorem sum_stops {T : Type*} [AddCommMonoid T] (hW : 0 < W) (v : ℕ → T) :
    run (· + ·) (fun lane => ((stops W depth hW lane).map v).sum) (W - 1) = ∑ j ∈ Finset.range depth, v j := by
  have hstops : ((List.range W).flatMap (stops W depth hW)).Perm (List.range depth) := stops_perm
  have hperm := hstops.map v
  have hflat : ((List.range W).map fun lane => ((stops W depth hW lane).map v).sum).sum =
      (((List.range W).flatMap (stops W depth hW)).map v).sum := by
    rw [List.map_flatMap, List.flatMap_def, List.sum_flatten, List.map_map]
    rfl
  rw [run_add_eq_sum, Nat.sub_add_cancel hW, hflat, hperm.sum_eq]
  rfl

end Walk

/-! ## A loop in machine words -/

/-- Where `for (i = start; i < bound; i += step)` goes in this many rounds. The index wraps, as it does on
the machine. -/
def visits (bound step : UInt32) : ℕ → UInt32 → List UInt32
  | 0, _ => []
  | rounds + 1, i => if i < bound then i :: visits bound step rounds (i + step) else []

/-- Such a loop. One whose index does not wrap is over in `bound` rounds. -/
def strided (bound step start : UInt32) : List UInt32 :=
  visits bound step bound.toNat start

section Words

variable {bound step : UInt32}

theorem map_visits (hstep : 0 < step.toNat) (hfits : bound.toNat + step.toNat ≤ 2 ^ 32) {rounds : ℕ} {i : UInt32}
    (hover : bound.toNat ≤ i.toNat + rounds) :
    (visits bound step rounds i).map UInt32.toNat = stops step.toNat bound.toNat hstep i.toNat := by
  induction rounds generalizing i with
  | zero =>
    rw [stops, if_neg (by omega)]
    rfl
  | succ rounds ih =>
    rw [visits]
    by_cases hi : i < bound
    · have hlt := UInt32.lt_iff_toNat_lt.mp hi
      have hnext : (i + step).toNat = i.toNat + step.toNat := by
        rw [UInt32.toNat_add]
        exact Nat.mod_eq_of_lt (by omega)
      rw [if_pos hi, stops_of_lt hlt, List.map_cons, ih (by omega), hnext]
    · rw [if_neg hi, stops, if_neg (mt UInt32.lt_iff_toNat_lt.mpr hi)]
      rfl

/-- The lanes pass every index below the bound once between them. -/
theorem strided_perm (hstep : 0 < step.toNat) (hfits : bound.toNat + step.toNat ≤ 2 ^ 32) :
    ((List.range step.toNat).flatMap fun lane => (strided bound step (UInt32.ofNat lane)).map UInt32.toNat).Perm
      (List.range bound.toNat) := by
  have hlanes : ((List.range step.toNat).flatMap fun lane =>
      (strided bound step (UInt32.ofNat lane)).map UInt32.toNat) =
        (List.range step.toNat).flatMap (stops step.toNat bound.toNat hstep) := by
    apply List.flatMap_congr
    intro lane hlane
    rw [List.mem_range] at hlane
    have hlane' : (UInt32.ofNat lane).toNat = lane := UInt32.toNat_ofNat_of_lt' (lt_trans hlane step.toNat_lt)
    unfold strided
    rw [map_visits hstep hfits (Nat.le_add_left ..), hlane']
  rw [hlanes]
  exact stops_perm

/-- What each index gives, lane by lane, is what the indices give. -/
theorem strided_flatMap {α : Type*} (hstep : 0 < step.toNat) (hfits : bound.toNat + step.toNat ≤ 2 ^ 32)
    {f : UInt32 → List α} {g : ℕ → List α} (hfg : ∀ i < bound, f i = g i.toNat) :
    ((List.range step.toNat).flatMap fun lane => (strided bound step (UInt32.ofNat lane)).flatMap f).Perm
      ((List.range bound.toNat).flatMap g) := by
  have hlanes := strided_perm hstep hfits
  have hbelow : ∀ lane ∈ List.range step.toNat, ∀ i ∈ strided bound step (UInt32.ofNat lane), i < bound := by
    intro lane hlane i hi
    have hmem := hlanes.mem_iff.mp (List.mem_flatMap.mpr ⟨lane, hlane, List.mem_map_of_mem hi⟩)
    exact UInt32.lt_iff_toNat_lt.mpr (List.mem_range.mp hmem)
  have hflat : ((List.range step.toNat).flatMap fun lane => (strided bound step (UInt32.ofNat lane)).flatMap f) =
      ((List.range step.toNat).flatMap fun lane =>
        (strided bound step (UInt32.ofNat lane)).map UInt32.toNat).flatMap g := by
    rw [List.flatMap_assoc]
    apply List.flatMap_congr
    intro lane hlane
    rw [List.flatMap_map]
    apply List.flatMap_congr
    intro i hi
    exact hfg i (hbelow lane hlane i hi)
  rw [hflat]
  exact hlanes.flatMap_right g

end Words

end Grxcp.Lanes
