import Mathlib.Algebra.BigOperators.Intervals
import Grxcp.Lib.MajorOrder
import Grxcp.Lib.Sums
import Grxcp.Lib.Tiles
import Grxcp.Pta.TileArith

/-!
# A GEMM on a tile without error

The tile model adds its errors to a product that it walks tile by tile. Where none is left, the walk is
the product: no noise is on, the ADC passes its sums, and what the cells of the bank have drifted is
corrected by their trims (`Clean`). Then `pta_gemm` returns the product of the quantised operands, for
every shape and every geometry of the tile (`gemm_clean`).
-/

namespace Grxcp.PtaTile

open PtaTwin (Cfg Tile)
open Sums

variable {cfg : Cfg} {tile : Tile} {bank : ℕ} {dev : Device}

/-! ## Tiles without error -/

/-- What a cell's weight is off by. -/
def fault (cfg : Cfg) (dev : Device) (bank i : ℕ) : ℤ :=
  (if cfg.impair &&& driftBit ≠ 0 then dev.drift bank i else 0) + dev.trim bank i

/-- What noise and crosstalk is on has no magnitude, and the ADC passes its sums. -/
structure Quiet (cfg : Cfg) : Prop where
  thermal : cfg.impair &&& thermalBit = 0 ∨ cfg.sigmaTh = 0
  shot : cfg.impair &&& shotBit = 0 ∨ cfg.kShot = 0
  xtalk : cfg.impair &&& xtalkBit = 0 ∨ cfg.xtalk = 0
  progErr : cfg.impair &&& progErrBit = 0 ∨ cfg.sigmaPr = 0
  adc : quantised cfg = false

/-- The errors that the weights were written with are none that count. -/
def Errorless (cfg : Cfg) (e : ℕ → ℤ) : Prop :=
  cfg.impair &&& progErrBit = 0 ∨ ∀ i, e i = 0

/-- The columns' affine corrections are the identity. -/
def Unity (tile : Tile) (dev : Device) : Prop :=
  ∀ n < tile.cols, dev.gain n = 256 ∧ dev.offs n = 0

/-- If drift is on, a drift step moves no cell: its steps are zero, and no cell is past the clamp. -/
def Still (cfg : Cfg) (dev : Device) : Prop :=
  cfg.impair &&& driftBit ≠ 0 → cfg.driftSigma = 0 ∧ cfg.driftMax.toNat < 2 ^ 31 ∧
    ∀ b i, |dev.drift b i| ≤ cfg.driftMax.toNat

/-- A bank of a device that computes exactly. -/
structure Clean (cfg : Cfg) (tile : Tile) (bank : ℕ) (dev : Device) : Prop where
  quiet : Quiet cfg
  unity : Unity tile dev
  still : Still cfg dev
  cells : ∀ i < tile.rows * tile.cols, fault cfg dev bank i = 0

/-- An activation, as the tile takes it. -/
def activation (cfg : Cfg) (tile : Tile) (x : ℤ) : ℤ :=
  if cfg.impair &&& quantBit ≠ 0 then quant x cfg.actBits tile.dinW else x

/-- A weight, as the tile takes it. -/
def weight (cfg : Cfg) (tile : Tile) (x : ℤ) : ℤ :=
  if cfg.impair &&& quantBit ≠ 0 then quant x cfg.wBits tile.dinW else x

theorem toInt32_of_abs_le {x : ℤ} {m : ℕ} (hm : m < 2 ^ 31) (hx : |x| ≤ m) : toInt32 x = x := by
  obtain ⟨hlo, hhi⟩ := abs_le.mp hx
  exact Int.bmod_eq_of_le (by norm_num; omega) (by norm_num; omega)

theorem gaussStep_zero (s : U32) : (gaussStep s 0).2 = 0 := by
  unfold gaussStep
  simp [asr64_eq]

/-- A weight that is written without error leaves the weights without error. -/
theorem Errorless.write (h : Quiet cfg) {e : ℕ → ℤ} (he : Errorless cfg e) (st : Streams) (i : ℕ) :
    Errorless cfg (Function.update e i (weightWrite st cfg).2) := by
  rcases he with hoff | hzero
  · exact .inl hoff
  rcases h.progErr with hoff | hsigma
  · exact .inl hoff
  · right
    intro j
    have hdraw : (weightWrite st cfg).2 = 0 := by
      unfold weightWrite
      dsimp only
      rw [hsigma, gaussStep_zero]
      rfl
    rw [hdraw]
    by_cases hj : j = i
    · rw [hj, Function.update_self]
    · rw [Function.update_of_ne hj]
      exact hzero j

theorem setCell_self (f : ℕ → ℕ → ℤ) (b i : ℕ) : setCell f b i (f b i) = f := by
  rw [setCell, Function.update_eq_self, Function.update_eq_self]

/-- What a device keeps while a clean GEMM runs on it. -/
structure Kept (dev dev' : Device) : Prop where
  rows : dev'.rows = dev.rows
  cols : dev'.cols = dev.cols
  drift : dev'.drift = dev.drift
  trim : dev'.trim = dev.trim
  gain : dev'.gain = dev.gain
  offs : dev'.offs = dev.offs

theorem Kept.refl (dev : Device) : Kept dev dev :=
  ⟨rfl, rfl, rfl, rfl, rfl, rfl⟩

theorem Kept.trans {dev₁ dev₂ dev₃ : Device} (h : Kept dev₁ dev₂) (h' : Kept dev₂ dev₃) : Kept dev₁ dev₃ :=
  ⟨h'.rows.trans h.rows, h'.cols.trans h.cols, h'.drift.trans h.drift, h'.trim.trans h.trim,
    h'.gain.trans h.gain, h'.offs.trans h.offs⟩

theorem Kept.foldl {α : Type} {f : Device → α → Device} (P : Device → Prop)
    (hf : ∀ dev a, P dev → Kept dev (f dev a)) (hP : ∀ dev dev', Kept dev dev' → P dev → P dev') (l : List α) :
    ∀ dev, P dev → Kept dev (l.foldl f dev) := by
  induction l with
  | nil => exact fun dev _ => .refl dev
  | cons a l ih =>
    intro dev hdev
    have hone := hf dev a hdev
    exact hone.trans (ih _ (hP _ _ hone hdev))

theorem Still.kept (h : Still cfg dev) {dev' : Device} (hk : Kept dev dev') : Still cfg dev' := by
  intro hdrift
  rw [hk.drift]
  exact h hdrift

theorem driftCell_kept (hd : cfg.impair &&& driftBit ≠ 0) (h : Still cfg dev) (b i : ℕ) :
    Kept dev (driftCell cfg b dev i) := by
  obtain ⟨hsigma, hmax, hle⟩ := h hd
  have hcell : toInt32 (clamp (-cfg.driftMax.toNat) cfg.driftMax.toNat
      (dev.drift b i + (gaussStep dev.rng cfg.driftSigma).2)) = dev.drift b i := by
    have hb := abs_le.mp (hle b i)
    rw [hsigma, gaussStep_zero, add_zero, clamp_eq _ _ _ (by omega), min_eq_right hb.2, max_eq_right hb.1]
    exact toInt32_of_abs_le hmax (hle b i)
  refine ⟨rfl, rfl, ?_, rfl, rfl, rfl⟩
  unfold driftCell
  dsimp only
  rw [hcell, setCell_self]

theorem driftStep_kept (hd : cfg.impair &&& driftBit ≠ 0) (h : Still cfg dev) : Kept dev (driftStep cfg dev) :=
  Kept.foldl (Still cfg)
    (fun _ b hdev => Kept.foldl (Still cfg) (fun _ i h' => driftCell_kept hd h' b i) (fun _ _ hk h' => h'.kept hk)
      _ _ hdev)
    (fun _ _ hk h' => h'.kept hk) _ _ h

theorem shotStart_kept (hd : cfg.impair &&& driftBit ≠ 0) (h : Still cfg dev) : Kept dev (shotStart dev cfg) := by
  unfold shotStart
  split
  · exact ⟨rfl, rfl, rfl, rfl, rfl, rfl⟩
  · have hzero : Kept dev { dev with count := 0 } := ⟨rfl, rfl, rfl, rfl, rfl, rfl⟩
    exact hzero.trans (driftStep_kept hd (h.kept hzero))

theorem Clean.kept (h : Clean cfg tile bank dev) {dev' : Device} (hk : Kept dev dev') :
    Clean cfg tile bank dev' where
  quiet := h.quiet
  unity := by
    intro n hn
    rw [hk.gain, hk.offs]
    exact h.unity n hn
  still := h.still.kept hk
  cells := by
    intro i hi
    rw [fault, hk.drift, hk.trim]
    exact h.cells i hi

/-! ## An element -/

theorem Quiet.noise_eq (h : Quiet cfg) (st : Streams) (y : ℤ) : noise st cfg y = 0 := by
  have hth : (if cfg.impair &&& thermalBit ≠ 0 then
      asr64 (cfg.sigmaTh.toNat * gauss st.thermal + 32768) 16 else 0) = 0 := by
    rcases h.thermal with hoff | hzero
    · rw [if_neg (not_not.mpr hoff)]
    · rw [hzero, asr64_eq]
      simp
  have hsh : ∀ v, (if cfg.impair &&& shotBit ≠ 0 then
      asr64 (cfg.kShot.toNat * isqrt4 v * gauss st.shot + 524288) 20 else 0) = 0 := by
    intro v
    rcases h.shot with hoff | hzero
    · rw [if_neg (not_not.mpr hoff)]
    · rw [hzero, asr64_eq]
      simp
  unfold noise
  dsimp only
  rw [hth, hsh]
  rfl

theorem Quiet.rowTerm_eq (h : Quiet cfg) (a wa : ℕ → ℤ) (kr r : ℕ) :
    rowTerm cfg tile a wa kr r = activation cfg tile (a r) * wa r := by
  unfold rowTerm activation
  dsimp only
  congr 1
  rcases h.xtalk with hoff | hzero
  · rw [if_neg (not_not.mpr hoff)]
  · rw [hzero, asr64_eq]
    simp

theorem Quiet.rowSum_eq (h : Quiet cfg) (a wa : ℕ → ℤ) (kr : ℕ) :
    rowSum cfg tile a wa kr = ∑ r ∈ Finset.range tile.rows, activation cfg tile (a r) * wa r := by
  rw [rowSum, foldl_add_eq_sum]
  exact Finset.sum_congr rfl fun r _ => h.rowTerm_eq a wa kr r

/-- An analog weight is the weight in units of a 256th, and the cell's fault. -/
theorem analogWeightT_eq {e : ℕ → ℤ} (he : Errorless cfg e) (w : ℤ) (i : ℕ) :
    analogWeightT cfg tile.dinW w (e i) (dev.drift bank i) (dev.trim bank i) =
      weight cfg tile w * 256 + fault cfg dev bank i := by
  have herr : (if cfg.impair &&& progErrBit ≠ 0 then e i else 0) = 0 := by
    rcases he with hoff | hzero
    · rw [if_neg (not_not.mpr hoff)]
    · rw [hzero, ite_self]
  unfold analogWeightT analogWeight weight fault
  dsimp only
  rw [herr]
  ring

theorem Unity.affine_eq (h : Unity tile dev) {n : ℕ} (hn : n < tile.cols) (x : ℤ) (h1 : 1 ≤ tile.accW)
    (h64 : tile.accW ≤ 64) : affine dev tile n x = x.bmod (2 ^ tile.accW) := by
  obtain ⟨hgain, hoffs⟩ := h n hn
  unfold affine
  dsimp only
  rw [hgain, hoffs, if_neg (by decide), add_zero, sext_ofInt _ h1 h64]

/-- Without noise an element is its row sum over 256, rounded. -/
theorem Quiet.element_eq (h : Quiet cfg) (st : Streams) (a wa : ℕ → ℤ) (kr : ℕ) (h1 : 1 ≤ tile.accW)
    (h64 : tile.accW ≤ 64) :
    element st cfg tile a wa kr = ({ st with thermal := xorshift32 st.thermal, shot := xorshift32 st.shot },
      ((rowSum cfg tile a wa kr + 2 ^ 7) / 2 ^ 8).bmod (2 ^ tile.accW), 0) := by
  unfold element
  dsimp only
  rw [sext_adc _ _ _ h1 h64, adc_sat, h.noise_eq, converted, h.adc]
  simp

theorem quant_zero (bits : U32) (dinW : ℕ) : quant 0 bits dinW = 0 := by
  unfold quant
  split
  · rfl
  · rename_i hround
    have hhalf : asr64 (0 + 2 ^ (dinW - bits.toNat - 1)) (dinW - bits.toNat) = 0 := by
      rw [asr64_eq, zero_add]
      refine Int.ediv_eq_zero_of_lt (by positivity) (pow_lt_pow_right₀ (by norm_num) ?_)
      omega
    have hlim : (0 : ℤ) < 2 ^ (bits.toNat - 1) := by positivity
    dsimp only
    rw [hhalf, clamp_eq _ _ _ (by omega), min_eq_right (by omega), max_eq_right (by omega), zero_mul]
    rfl

theorem activation_zero (cfg : Cfg) (tile : Tile) : activation cfg tile 0 = 0 := by
  unfold activation
  rw [quant_zero, ite_self]

/-! ## Steps that add -/

theorem bmod_congr {x y : ℤ} {w : ℕ} (h : x ≡ y [ZMOD 2 ^ w]) : x.bmod (2 ^ w) = y.bmod (2 ^ w) := by
  unfold Int.bmod
  push_cast
  rw [h]

/-- A step of the walk adds `d` to the sums, as far as the accumulator holds them, and saturates nowhere. -/
structure Adds (tile : Tile) (s s' : Walk) (d : ℕ → ℤ) : Prop where
  kept : Kept s.dev s'.dev
  sum : ∀ i, s'.C i ≡ s.C i + d i [ZMOD 2 ^ tile.accW]
  held : ∀ i, (s.C i).bmod (2 ^ tile.accW) = s.C i → (s'.C i).bmod (2 ^ tile.accW) = s'.C i
  sats : s'.sats = s.sats

theorem Adds.refl (tile : Tile) (s : Walk) : Adds tile s s 0 :=
  ⟨.refl _, fun i => by rw [Pi.zero_apply, add_zero], fun _ h => h, rfl⟩

theorem Adds.trans {s₁ s₂ s₃ : Walk} {d d' : ℕ → ℤ} (h : Adds tile s₁ s₂ d) (h' : Adds tile s₂ s₃ d') :
    Adds tile s₁ s₃ (d + d') where
  kept := h.kept.trans h'.kept
  sum i := by
    calc s₃.C i ≡ s₂.C i + d' i [ZMOD 2 ^ tile.accW] := h'.sum i
      _ ≡ s₁.C i + d i + d' i [ZMOD 2 ^ tile.accW] := (h.sum i).add_right _
      _ = s₁.C i + (d + d') i := by rw [Pi.add_apply, add_assoc]
  held i hi := h'.held i (h.held i hi)
  sats := h'.sats.trans h.sats

/-- A loop adds what its turns add. -/
theorem Adds.foldl {α : Type} {f : Walk → α → Walk} (P : Walk → Prop) (d : α → ℕ → ℤ) (l : List α)
    (hf : ∀ s, ∀ a ∈ l, P s → Adds tile s (f s a) (d a) ∧ P (f s a)) :
    ∀ s, P s → Adds tile s (l.foldl f s) (l.map d).sum ∧ P (l.foldl f s) :=
  foldl_adds (Adds.refl tile) (fun _ _ _ _ _ => Adds.trans) P d l hf

section Walk

variable {o : Operands} {m nBase kBase nc kr : ℕ}

/-- The tile's weights are written, without error. -/
structure Loaded (cfg : Cfg) (tile : Tile) (o : Operands) (nBase kBase nc kr : ℕ) (s : Walk) : Prop where
  w : ∀ r < kr, ∀ n < nc, s.w (r * tile.cols + n) = o.B.getD ((kBase + r) * o.N + nBase + n) 0
  e : Errorless cfg s.e

theorem writeRow (h : Quiet cfg) (o : Operands) (nBase kBase : ℕ) (hnc : nc ≤ tile.cols) (r : ℕ) {s : Walk}
    (he : Errorless cfg s.e) :
    let s' := (List.range nc).foldl (writeWeight cfg tile o nBase kBase r) s
    s'.dev = s.dev ∧ s'.C = s.C ∧ s'.sats = s.sats ∧ Errorless cfg s'.e ∧
      (∀ n < nc, s'.w (r * tile.cols + n) = o.B.getD ((kBase + r) * o.N + nBase + n) 0) ∧
      ∀ r' ≠ r, ∀ n < tile.cols, s'.w (r' * tile.cols + n) = s.w (r' * tile.cols + n) := by
  induction nc with
  | zero => exact ⟨rfl, rfl, rfl, he, fun n hn => absurd hn (Nat.not_lt_zero n), fun _ _ _ _ => rfl⟩
  | succ nc ih =>
    obtain ⟨hdev, hC, hsats, he', hw, hother⟩ := ih (by omega)
    rw [List.range_succ, List.foldl_append]
    refine ⟨hdev, hC, hsats, he'.write h _ _, fun n hn => ?_, fun r' hr' n hn => ?_⟩
    · change Function.update _ _ _ _ = _
      rcases Nat.lt_succ_iff_lt_or_eq.mp hn with hlt | rfl
      · rw [Function.update_of_ne (by omega)]
        exact hw n hlt
      · rw [Function.update_self]
    · change Function.update _ _ _ _ = _
      rw [Function.update_of_ne fun h => hr' (index_inj hn (by omega) h).1]
      exact hother r' hr' n hn

theorem writeWeights_loaded (h : Quiet cfg) (o : Operands) (nBase kBase kr : ℕ) (hnc : nc ≤ tile.cols)
    {s : Walk} (he : Errorless cfg s.e) :
    let s' := writeWeights cfg tile o nBase kBase nc kr s
    s'.dev = s.dev ∧ s'.C = s.C ∧ s'.sats = s.sats ∧ Loaded cfg tile o nBase kBase nc kr s' := by
  unfold writeWeights
  induction kr with
  | zero => exact ⟨rfl, rfl, rfl, fun r hr => absurd hr (Nat.not_lt_zero r), he⟩
  | succ kr ih =>
    obtain ⟨hdev, hC, hsats, hw, he'⟩ := ih
    rw [List.range_succ, List.foldl_append]
    obtain ⟨hdev', hC', hsats', he'', hrow, hother⟩ := writeRow h o nBase kBase hnc kr he'
    refine ⟨hdev'.trans hdev, hC'.trans hC, hsats'.trans hsats, fun r hr n hn => ?_, he''⟩
    rcases Nat.lt_succ_iff_lt_or_eq.mp hr with hlt | rfl
    · exact (hother r hlt.ne n (hn.trans_le hnc)).trans (hw r hlt n hn)
    · exact hrow n hn

/-- What the rows of a tile add to a cell. -/
def part (cfg : Cfg) (tile : Tile) (o : Operands) (m c kBase kr : ℕ) : ℤ :=
  ∑ r ∈ Finset.range kr, activation cfg tile (o.A.getD (m * o.K + (kBase + r)) 0) *
    weight cfg tile (o.B.getD ((kBase + r) * o.N + c) 0)

/-- The activations of a shot. -/
def lit (o : Operands) (m kBase kr : ℕ) : ℕ → ℤ :=
  fun r => if r < kr then o.A.getD (m * o.K + kBase + r) 0 else 0

/-- On a clean bank a column's rows sum to the part of its cell, in units of a 256th. -/
theorem Clean.rowSum_eq (h : Clean cfg tile bank dev) {s : Walk} (hload : Loaded cfg tile o nBase kBase nc kr s)
    (hkr : kr ≤ tile.rows) (hnc : nc ≤ tile.cols) {n : ℕ} (hn : n < nc) :
    rowSum cfg tile (lit o m kBase kr) (fun r =>
      analogWeightT cfg tile.dinW (s.w (r * tile.cols + n)) (s.e (r * tile.cols + n))
        (dev.drift bank (r * tile.cols + n)) (dev.trim bank (r * tile.cols + n))) kr =
      part cfg tile o m (nBase + n) kBase kr * 256 := by
  rw [h.quiet.rowSum_eq, part, Finset.sum_mul]
  -- the rows past the tile's are dark
  have hdark : ∀ r ∈ Finset.range tile.rows, r ∉ Finset.range kr →
      activation cfg tile (lit o m kBase kr r) * analogWeightT cfg tile.dinW (s.w (r * tile.cols + n))
        (s.e (r * tile.cols + n)) (dev.drift bank (r * tile.cols + n))
        (dev.trim bank (r * tile.cols + n)) = 0 := by
    intro r _ hr
    rw [lit, if_neg (by simpa using hr), activation_zero, zero_mul]
  rw [← Finset.sum_subset (Finset.range_subset_range.mpr hkr) hdark]
  refine Finset.sum_congr rfl fun r hr => ?_
  rw [Finset.mem_range] at hr
  have hcell : r * tile.cols + n < tile.rows * tile.cols := by nlinarith
  rw [analogWeightT_eq hload.e, h.cells _ hcell, hload.w r hr n hn, lit, if_pos hr, add_zero, mul_assoc,
    Nat.add_assoc, Nat.add_assoc]

theorem column_adds (hacc : 2 ≤ tile.accW) (h64 : tile.accW ≤ 64) (hkr : kr ≤ tile.rows)
    (hnc : nc ≤ tile.cols) {n : ℕ} (hn : n < nc) {s : Walk} (h : Clean cfg tile o.bank s.dev)
    (hload : Loaded cfg tile o nBase kBase nc kr s) :
    Adds tile s (column cfg tile o m nBase kr (lit o m kBase kr) s n)
      (Pi.single (m * o.N + (nBase + n)) (part cfg tile o m (nBase + n) kBase kr)) := by
  have hround : (part cfg tile o m (nBase + n) kBase kr * 256 + 2 ^ 7) / 2 ^ 8 =
      part cfg tile o m (nBase + n) kBase kr := by omega
  have hC : (column cfg tile o m nBase kr (lit o m kBase kr) s n).C =
      Function.update s.C (m * o.N + (nBase + n)) ((s.C (m * o.N + (nBase + n)) +
        part cfg tile o m (nBase + n) kBase kr).bmod (2 ^ tile.accW)) := by
    unfold column
    dsimp only
    rw [h.quiet.element_eq _ _ _ _ (by omega) h64]
    dsimp only
    rw [h.rowSum_eq hload hkr hnc hn, hround, h.unity.affine_eq (hn.trans_le hnc) _ (by omega) h64,
      Int.bmod_bmod, ← BitVec.ofInt_add, sext_ofInt _ (by omega) h64, Int.add_bmod_bmod, Nat.add_assoc]
  refine ⟨.refl _, fun i => ?_, fun i hi => ?_, ?_⟩
  · rw [hC]
    by_cases hcell : i = m * o.N + (nBase + n)
    · subst hcell
      rw [Function.update_self, Pi.single_eq_same]
      exact_mod_cast Int.bmod_emod
    · rw [Function.update_of_ne hcell, Pi.single_eq_of_ne hcell, add_zero]
  · rw [hC]
    by_cases hcell : i = m * o.N + (nBase + n)
    · subst hcell
      rw [Function.update_self, Int.bmod_bmod]
    · rw [Function.update_of_ne hcell]
      exact hi
  · unfold column
    dsimp only
    rw [h.quiet.element_eq _ _ _ _ (by omega) h64]
    exact add_zero _

/-- A shot's device, and its sums as they were. -/
theorem shot_device {o : Operands} (cfg : Cfg) (h : Clean cfg tile o.bank dev) :
    Kept dev (if cfg.impair &&& driftBit ≠ 0 then shotStart dev cfg else dev) := by
  by_cases hd : cfg.impair &&& driftBit ≠ 0
  · rw [if_pos hd]
    exact shotStart_kept hd h.still
  · rw [if_neg hd]
    exact .refl dev

theorem shot_adds (hacc : 2 ≤ tile.accW) (h64 : tile.accW ≤ 64) (hkr : kr ≤ tile.rows)
    (hnc : nc ≤ tile.cols) {s : Walk} (h : Clean cfg tile o.bank s.dev)
    (hload : Loaded cfg tile o nBase kBase nc kr s) :
    Adds tile s (shot cfg tile o nBase kBase nc kr s m)
      (∑ n ∈ Finset.range nc, spread o.N (fun m c => part cfg tile o m c kBase kr) m (nBase + n)) ∧
      Clean cfg tile o.bank (shot cfg tile o nBase kBase nc kr s m).dev ∧
      Loaded cfg tile o nBase kBase nc kr (shot cfg tile o nBase kBase nc kr s m) := by
  have hstart : shot cfg tile o nBase kBase nc kr s m =
      (List.range nc).foldl (column cfg tile o m nBase kr (lit o m kBase kr))
        { s with dev := if cfg.impair &&& driftBit ≠ 0 then shotStart s.dev cfg else s.dev } := by
    unfold shot lit
    dsimp only
    congr 1
    split <;> rfl
  have hdev := shot_device cfg h
  have hfirst : Adds tile s
      { s with dev := if cfg.impair &&& driftBit ≠ 0 then shotStart s.dev cfg else s.dev } 0 :=
    ⟨hdev, fun i => by rw [Pi.zero_apply, add_zero], fun _ hi => hi, rfl⟩
  obtain ⟨hadds, hclean, hloaded⟩ := Adds.foldl
    (fun s => Clean cfg tile o.bank s.dev ∧ Loaded cfg tile o nBase kBase nc kr s)
    (fun n => spread o.N (fun m c => part cfg tile o m c kBase kr) m (nBase + n)) (List.range nc)
    (fun s n hn hs => ⟨column_adds hacc h64 hkr hnc (List.mem_range.mp hn) hs.1 hs.2, hs.1, hs.2.w, hs.2.e⟩)
    { s with dev := if cfg.impair &&& driftBit ≠ 0 then shotStart s.dev cfg else s.dev }
    ⟨h.kept hdev, hload.w, hload.e⟩
  rw [hstart]
  rw [sum_map_range] at hadds
  have hall := hfirst.trans hadds
  rw [zero_add] at hall
  exact ⟨hall, hclean, hloaded⟩

/-- A tile adds its part to every cell of its columns. -/
theorem tileWalk_adds (hacc : 2 ≤ tile.accW) (h64 : tile.accW ≤ 64) {s : Walk}
    (h : Clean cfg tile o.bank s.dev) (he : Errorless cfg s.e) :
    Adds tile s (tileWalk cfg tile o nBase s kBase)
      (∑ m ∈ Finset.range o.M, ∑ n ∈ Finset.range (min (o.N - nBase) tile.cols),
        spread o.N (fun m c => part cfg tile o m c kBase (min (o.K - kBase) tile.rows)) m (nBase + n)) ∧
      Clean cfg tile o.bank (tileWalk cfg tile o nBase s kBase).dev ∧
      Errorless cfg (tileWalk cfg tile o nBase s kBase).e := by
  have hmin : ∀ a b : ℕ, (if a < b then a else b) = min a b := by
    intro a b
    split <;> omega
  unfold tileWalk
  dsimp only
  rw [hmin, hmin]
  obtain ⟨hdev, hC, hsats, hload⟩ := writeWeights_loaded h.quiet o nBase kBase
    (min (o.K - kBase) tile.rows) (Nat.min_le_right (o.N - nBase) tile.cols) he
  generalize writeWeights cfg tile o nBase kBase (min (o.N - nBase) tile.cols)
    (min (o.K - kBase) tile.rows) s = s' at *
  have hfirst : Adds tile s s' 0 :=
    ⟨hdev ▸ .refl _, fun i => by rw [hC, Pi.zero_apply, add_zero], fun i hi => by rwa [hC], hsats⟩
  obtain ⟨hadds, hclean, hloaded⟩ := Adds.foldl
    (fun s => Clean cfg tile o.bank s.dev ∧
      Loaded cfg tile o nBase kBase (min (o.N - nBase) tile.cols) (min (o.K - kBase) tile.rows) s)
    (fun m => ∑ n ∈ Finset.range (min (o.N - nBase) tile.cols),
      spread o.N (fun m c => part cfg tile o m c kBase (min (o.K - kBase) tile.rows)) m (nBase + n))
    (List.range o.M)
    (fun s m _ hs => shot_adds hacc h64 (Nat.min_le_right _ _) (Nat.min_le_right _ _) hs.1 hs.2) s'
    ⟨hdev ▸ h, hload⟩
  rw [sum_map_range] at hadds
  have hall := hfirst.trans hadds
  rw [zero_add] at hall
  exact ⟨hall, hclean, hloaded.e⟩

/-- What the tiles of a stripe add. -/
def stripePart (cfg : Cfg) (tile : Tile) (o : Operands) (nBase kBase : ℕ) : ℕ → ℤ :=
  ∑ m ∈ Finset.range o.M, ∑ n ∈ Finset.range (min (o.N - nBase) tile.cols),
    spread o.N (fun m c => part cfg tile o m c kBase (min (o.K - kBase) tile.rows)) m (nBase + n)

theorem walk_adds (o : Operands) (hacc : 2 ≤ tile.accW) (h64 : tile.accW ≤ 64) {s : Walk}
    (h : Clean cfg tile o.bank s.dev) (he : Errorless cfg s.e) :
    Adds tile s (walk cfg tile o s) ((bases o.N tile.cols).map fun nBase =>
      ((bases o.K tile.rows).map (stripePart cfg tile o nBase)).sum).sum := by
  have hstripe : ∀ s nBase, Clean cfg tile o.bank s.dev ∧ Errorless cfg s.e →
      Adds tile s (stripe cfg tile o s nBase) ((bases o.K tile.rows).map (stripePart cfg tile o nBase)).sum ∧
        Clean cfg tile o.bank (stripe cfg tile o s nBase).dev ∧
        Errorless cfg (stripe cfg tile o s nBase).e := fun s nBase hs =>
    Adds.foldl (fun s => Clean cfg tile o.bank s.dev ∧ Errorless cfg s.e) (stripePart cfg tile o nBase)
      (bases o.K tile.rows) (fun _ _ _ hs => tileWalk_adds hacc h64 hs.1 hs.2) s hs
  exact (Adds.foldl (fun s => Clean cfg tile o.bank s.dev ∧ Errorless cfg s.e)
    (fun nBase => ((bases o.K tile.rows).map (stripePart cfg tile o nBase)).sum) (bases o.N tile.cols)
    (fun s nBase _ hs => hstripe s nBase hs) s ⟨h, he⟩).1

/-- The tiles of all stripes together add to every cell the sum over the inner dimension. -/
theorem sum_stripePart (hrows : 0 < tile.rows) (hcols : 0 < tile.cols) :
    ((bases o.N tile.cols).map fun nBase =>
      ((bases o.K tile.rows).map (stripePart cfg tile o nBase)).sum).sum =
        ∑ m ∈ Finset.range o.M, ∑ c ∈ Finset.range o.N,
          spread o.N (fun m c => part cfg tile o m c 0 o.K) m c := by
  -- over the inner dimension
  have hinner : ∀ m c, ((bases o.K tile.rows).map fun kBase =>
      spread o.N (fun m c => part cfg tile o m c kBase (min (o.K - kBase) tile.rows)) m c).sum =
        spread o.N (fun m c => part cfg tile o m c 0 o.K) m c := by
    intro m c
    have hpieces := Tiles.sum_pieces (fun p => activation cfg tile (o.A.getD (m * o.K + p) 0) *
      weight cfg tile (o.B.getD (p * o.N + c) 0)) (m := o.K) hrows
    unfold spread part
    simp only [zero_add]
    rw [← hpieces]
    exact sum_map_single _ _ _
  have hstripe : ∀ nBase, ((bases o.K tile.rows).map (stripePart cfg tile o nBase)).sum =
      ∑ m ∈ Finset.range o.M, ∑ n ∈ Finset.range (min (o.N - nBase) tile.cols),
        spread o.N (fun m c => part cfg tile o m c 0 o.K) m (nBase + n) := by
    intro nBase
    unfold stripePart
    rw [sum_map_sum]
    refine Finset.sum_congr rfl fun m _ => ?_
    rw [sum_map_sum]
    exact Finset.sum_congr rfl fun n _ => hinner m (nBase + n)
  simp only [hstripe]
  rw [sum_map_sum]
  exact Finset.sum_congr rfl fun m _ => Tiles.sum_pieces _ hcols

end Walk

/-! ## A GEMM -/

/-- The shape of a GEMM is one that `pta_gemm` takes, on a device of the tile's geometry. -/
structure Shaped (tile : Tile) (dev : Device) (bank M N K : ℕ) : Prop where
  M : 1 ≤ M
  N : 1 ≤ N
  K : 1 ≤ K
  rows : 1 ≤ tile.rows
  cols : 1 ≤ tile.cols
  acc : 2 ≤ tile.accW
  word : tile.accW ≤ 64
  bank : bank < 2
  dev : dev.rows = tile.rows ∧ dev.cols = tile.cols

/-- The cells of a product, as the tile takes its operands and as its accumulator holds them. -/
def tileProduct (cfg : Cfg) (tile : Tile) (M N K : ℕ) (A B : List ℤ) : List ℤ :=
  (MajorOrder.productCells M N K (fun i => activation cfg tile (A.getD i 0))
    (fun i => weight cfg tile (B.getD i 0))).map fun x => x.bmod (2 ^ tile.accW)

/-- On a clean bank the walk comes to the product, whatever the streams. -/
theorem gemmSt_clean {M N K : ℕ} (h : Clean cfg tile bank dev) (hs : Shaped tile dev bank M N K)
    (st : Streams) (A B : List ℤ) :
    ∃ st' dev', Kept dev dev' ∧ gemmSt st cfg tile dev bank M N K A B =
      (st', dev', some (0, tileProduct cfg tile M N K A B)) := by
  let o : Operands := ⟨bank, M, N, K, A, B⟩
  have hwalk := walk_adds o hs.acc hs.word (s := { st, dev }) h (.inr fun _ => rfl)
  rw [sum_stripePart hs.rows hs.cols] at hwalk
  have hrun : gemmSt st cfg tile dev bank M N K A B = ((walk cfg tile o { st, dev }).st,
      (walk cfg tile o { st, dev }).dev, some ((walk cfg tile o { st, dev }).sats,
        (List.range (M * N)).map (walk cfg tile o { st, dev }).C)) := by
    unfold gemmSt
    rw [if_neg]
    · rfl
    · have := hs.M
      have := hs.N
      have := hs.K
      have := hs.rows
      have := hs.cols
      have := hs.acc
      have := hs.word
      have := hs.bank
      have := hs.dev
      omega
  refine ⟨(walk cfg tile o { st, dev }).st, _, hwalk.kept, ?_⟩
  suffices hcells : (List.range (M * N)).map (walk cfg tile o { st, dev }).C = tileProduct cfg tile M N K A B by
    rw [hrun, hwalk.sats, hcells]
  unfold tileProduct MajorOrder.productCells
  rw [List.map_map]
  refine List.map_congr_left fun q hq => ?_
  have hpos : 0 < N := hs.N
  rw [List.mem_range] at hq
  have hrow : q / N < M := Nat.div_lt_of_lt_mul (by rwa [Nat.mul_comm] at hq)
  have hcol : q % N < N := Nat.mod_lt q hpos
  have hcell : q = q / N * N + q % N := by
    rw [Nat.mul_comm]
    exact (Nat.div_add_mod q N).symm
  have hsum := hwalk.sum q
  rw [hcell, spread_apply _ hrow hcol, ← hcell] at hsum
  have hsame := bmod_congr hsum
  rw [hwalk.held q Int.zero_bmod, zero_add] at hsame
  rw [hsame, part]
  simp only [zero_add, Function.comp_apply]
  rfl

/-- On a clean bank a GEMM of every shape is the product of its quantised operands, as far as the
accumulator holds it. Nothing saturates, and the bank stays clean. -/
theorem gemm_clean {M N K : ℕ} (h : Clean cfg tile bank dev) (hs : Shaped tile dev bank M N K) (A B : List ℤ) :
    ∃ dev', Clean cfg tile bank dev' ∧
      gemm cfg tile dev bank M N K A B = (dev', some (0, tileProduct cfg tile M N K A B)) := by
  obtain ⟨st', dev', hkept, hrun⟩ := gemmSt_clean h hs (start cfg.seed) A B
  refine ⟨dev', h.kept hkept, ?_⟩
  unfold gemm
  rw [hrun]

/-- Five columns and three rows on a tile of two by two. -/
theorem gemm_clean_tiles :
    ∃ dev', Clean {} ⟨2, 2, 16, 32⟩ 1 dev' ∧
      gemm {} ⟨2, 2, 16, 32⟩ { rows := 2, cols := 2 } (1 : ℕ) (1 : ℕ) (5 : ℕ) (3 : ℕ) [1, -2, 3]
        [1, 2, 3, 4, 5, 6, 7, 8, 9, 10, 11, 12, 13, 14, 15] =
          (dev', some (0, tileProduct {} ⟨2, 2, 16, 32⟩ 1 5 3 [1, -2, 3]
            [1, 2, 3, 4, 5, 6, 7, 8, 9, 10, 11, 12, 13, 14, 15])) := by
  refine gemm_clean ?_ ?_ _ _
  · exact ⟨⟨.inl rfl, .inl rfl, .inl rfl, .inl rfl, rfl⟩, fun _ _ => ⟨rfl, rfl⟩, fun hd => absurd rfl hd, fun _ _ => rfl⟩
  · exact ⟨by decide, by decide, by decide, by decide, by decide, by decide, by decide, by decide, rfl, rfl⟩

end Grxcp.PtaTile
