import Grxcp.Pta.TileModel

/-!
# A device through its calls

Over every run of the model's calls, whatever their configurations: no generator is ever zero, where an
xorshift would stay, and no ring is further out than the largest clamp of the run (`bounded_after`). A
device that is aged by so many steps is the one that the shots of these steps leave (`driftAge_eq`).
-/

namespace Grxcp.PtaTile

open PtaTwin (Cfg Tile CalCfg)

/-! ## Generators -/

theorem xorshift_left {s : U32} {k : ℕ} (hk : k = 13 ∨ k = 5) (h : s ^^^ s <<< k = 0) : s = 0 := by
  have heq : s = s <<< k := BitVec.xor_eq_zero_iff.mp h
  have hnat : s.toNat = s.toNat * 2 ^ k % 2 ^ 32 := by
    conv_lhs => rw [heq]
    rw [BitVec.toNat_shiftLeft, Nat.shiftLeft_eq]
  have hlt := s.isLt
  -- `2 ^ k - 1` is odd, so a word that it takes to a multiple of `2 ^ 32` is one
  have hzero : s.toNat = 0 := by
    rcases hk with rfl | rfl <;> omega
  exact BitVec.eq_of_toNat_eq hzero

theorem xorshift_right {s : U32} (h : s ^^^ s >>> 17 = 0) : s = 0 := by
  have heq : s = s >>> 17 := BitVec.xor_eq_zero_iff.mp h
  have hnat : s.toNat = s.toNat / 2 ^ 17 := by
    conv_lhs => rw [heq]
    rw [BitVec.toNat_ushiftRight, Nat.shiftRight_eq_div_pow]
  have hzero : s.toNat = 0 := by omega
  exact BitVec.eq_of_toNat_eq hzero

theorem xorshift32_ne_zero {s : U32} (h : s ≠ 0) : xorshift32 s ≠ 0 := by
  unfold xorshift32
  dsimp only
  intro hzero
  exact h (xorshift_left (.inl rfl) (xorshift_right (xorshift_left (.inr rfl) hzero)))

theorem streamSeed_ne_zero (seed : U32) {k : U32} (hk : k ≠ 0) : streamSeed seed k ≠ 0 := by
  unfold streamSeed
  split
  · exact hk
  · assumption

/-- No generator of a start is zero. -/
structure Streams.Alive (st : Streams) : Prop where
  thermal : st.thermal ≠ 0
  shot : st.shot ≠ 0
  prog : st.prog ≠ 0

theorem start_alive (seed : U32) : (start seed).Alive :=
  ⟨streamSeed_ne_zero seed (by decide), streamSeed_ne_zero seed (by decide),
    streamSeed_ne_zero seed (by decide)⟩

/-! ## The cells of a device -/

variable {cfg : Cfg} {tile : Tile} {dev : Device} {d t : ℕ}

/-- A ring of the device is at most `d` out, and a trim at most `t`; its generator runs. -/
structure Device.Bounded (d t : ℕ) (dev : Device) : Prop where
  drift : ∀ b i, |dev.drift b i| ≤ d
  trim : ∀ b i, |dev.trim b i| ≤ t
  rng : dev.rng ≠ 0

/-- What a loop keeps is what its turns keep. -/
theorem foldl_keeps {S α : Type} {P : S → Prop} {f : S → α → S} (hf : ∀ s a, P s → P (f s a)) (l : List α) :
    ∀ s, P s → P (l.foldl f s) := by
  induction l with
  | nil => exact fun s hs => hs
  | cons a l ih => exact fun s hs => ih _ (hf s a hs)

theorem iterate_keeps {S : Type} {P : S → Prop} {f : S → S} (hf : ∀ s, P s → P (f s)) (n : ℕ) :
    ∀ s, P s → P (f^[n] s) := by
  induction n with
  | zero => exact fun s hs => hs
  | succ n ih => exact fun s hs => ih _ (hf s hs)

theorem clamp_abs_le (x : ℤ) (m : ℕ) : |clamp (-m) m x| ≤ m := by
  unfold clamp
  dsimp only
  rw [abs_le]
  split <;> split <;> omega

/-- A word that is written after a clamp is within it, also where the clamp is past what the word holds. -/
theorem toInt32_clamp_abs_le (x : ℤ) (m : ℕ) : |toInt32 (clamp (-m) m x)| ≤ m := by
  refine le_trans ?_ (clamp_abs_le x m)
  generalize clamp (-m) m x = y
  unfold toInt32
  have hlo := Int.le_bmod (x := y) (m := 2 ^ 32) (by norm_num)
  have hhi := Int.bmod_lt (x := y) (m := 2 ^ 32) (by norm_num)
  norm_num at hlo hhi
  rcases lt_or_ge |y| (2 ^ 31) with hy | hy
  · obtain ⟨hlow, hhigh⟩ := abs_lt.mp hy
    rw [Int.bmod_eq_of_le (by norm_num; omega) (by norm_num; omega)]
  · refine le_trans ?_ hy
    rw [abs_le]
    norm_num
    omega

theorem setCell_abs_le {f : ℕ → ℕ → ℤ} {m : ℕ} (hf : ∀ b i, |f b i| ≤ m) {v : ℤ} (hv : |v| ≤ m) (b i : ℕ) :
    ∀ b' i', |setCell f b i v b' i'| ≤ m := by
  intro b' i'
  unfold setCell
  by_cases hb : b' = b
  · subst hb
    rw [Function.update_self]
    by_cases hi : i' = i
    · subst hi
      rwa [Function.update_self]
    · rw [Function.update_of_ne hi]
      exact hf _ _
  · rw [Function.update_of_ne hb]
    exact hf _ _

/-- The clamps of a configuration are within the bounds. -/
def Within (d t : ℕ) (cfg : Cfg) : Prop :=
  cfg.driftMax.toNat ≤ d ∧ cfg.trimMax.toNat ≤ t

theorem Device.Bounded.driftStep (hc : Within d t cfg) (h : dev.Bounded d t) : (driftStep cfg dev).Bounded d t := by
  have hcell : ∀ b (dev : Device) i, dev.Bounded d t → (driftCell cfg b dev i).Bounded d t := by
    intro b dev i h
    refine ⟨setCell_abs_le h.drift ?_ b i, h.trim, xorshift32_ne_zero h.rng⟩
    exact (toInt32_clamp_abs_le _ _).trans (by exact_mod_cast hc.1)
  exact foldl_keeps (fun dev b => foldl_keeps (hcell b) _ dev) _ dev h

theorem Device.Bounded.shotStart (hc : Within d t cfg) (h : dev.Bounded d t) :
    (shotStart dev cfg).Bounded d t := by
  unfold PtaTile.shotStart
  split
  · exact ⟨h.drift, h.trim, h.rng⟩
  · exact Device.Bounded.driftStep hc ⟨h.drift, h.trim, h.rng⟩

theorem Device.Bounded.trimWrite (hc : Within d t cfg) (h : dev.Bounded d t) (bank i : ℕ) (v : ℤ) :
    (trimWrite dev cfg bank i v).Bounded d t :=
  ⟨h.drift, setCell_abs_le h.trim ((toInt32_clamp_abs_le _ _).trans (by exact_mod_cast hc.2)) bank i, h.rng⟩

/-! ## A GEMM and a calibration -/

/-- Where a walk is, with its generators running. -/
structure Walk.Bounded (d t : ℕ) (s : Walk) : Prop where
  st : s.st.Alive
  dev : s.dev.Bounded d t

theorem Streams.Alive.weightWrite {st : Streams} (h : st.Alive) (cfg : Cfg) : (weightWrite st cfg).1.Alive :=
  ⟨h.thermal, h.shot, xorshift32_ne_zero h.prog⟩

/-- An element draws from two of the generators. -/
theorem Streams.Alive.element {st : Streams} (h : st.Alive) :
    ({ st with thermal := xorshift32 st.thermal, shot := xorshift32 st.shot } : Streams).Alive :=
  ⟨xorshift32_ne_zero h.thermal, xorshift32_ne_zero h.shot, h.prog⟩

theorem Walk.Bounded.walk (hc : Within d t cfg) {o : Operands} {s : Walk} (h : s.Bounded d t) :
    (walk cfg tile o s).Bounded d t := by
  have hwrite : ∀ nBase kBase r (s : Walk) n, s.Bounded d t →
      (writeWeight cfg tile o nBase kBase r s n).Bounded d t :=
    fun _ _ _ _ _ h => ⟨h.st.weightWrite cfg, h.dev⟩
  have hcolumn : ∀ m nBase kr a (s : Walk) n, s.Bounded d t →
      (column cfg tile o m nBase kr a s n).Bounded d t :=
    fun _ _ _ _ _ _ h => ⟨h.st.element, h.dev⟩
  have hshot : ∀ nBase kBase nc kr (s : Walk) m, s.Bounded d t →
      (shot cfg tile o nBase kBase nc kr s m).Bounded d t := by
    intro nBase kBase nc kr s m h
    refine foldl_keeps (fun s n => hcolumn m nBase kr _ s n) _ _ ?_
    split
    · exact ⟨h.st, h.dev.shotStart hc⟩
    · exact h
  have htile : ∀ nBase (s : Walk) kBase, s.Bounded d t → (tileWalk cfg tile o nBase s kBase).Bounded d t :=
    fun nBase s kBase h => foldl_keeps (fun s m => hshot nBase kBase _ _ s m) _ _
      (foldl_keeps (fun s r => foldl_keeps (fun s n => hwrite nBase kBase r s n) _ s) _ s h)
  exact foldl_keeps (fun s nBase => foldl_keeps (fun s kBase => htile nBase s kBase) _ s) _ s h

theorem Device.Bounded.gemm (hc : Within d t cfg) (h : dev.Bounded d t) (bank M N K : ℤ) (A B : List ℤ) :
    (gemm cfg tile dev bank M N K A B).1.Bounded d t := by
  unfold PtaTile.gemm gemmSt
  split
  · exact h
  · exact (Walk.Bounded.walk hc ⟨start_alive cfg.seed, h⟩).dev

structure CalWalk.Bounded (d t : ℕ) (s : CalWalk) : Prop where
  st : s.st.Alive
  dev : s.dev.Bounded d t

section Calibration

variable {bank : ℕ} {cal : CalCfg}

theorem CalWalk.Bounded.calRep (hc : Within d t cfg) {s : CalWalk} (h : s.Bounded d t) :
    (calRep cfg tile bank cal s).Bounded d t := by
  have hcolumn : ∀ r (s : CalWalk) n, s.Bounded d t → (probeColumn cfg tile bank cal r s n).Bounded d t :=
    fun _ _ _ h => ⟨h.st.element, h.dev⟩
  have hprobe : ∀ (s : CalWalk) r, s.Bounded d t → (probe cfg tile bank cal s r).Bounded d t := by
    intro s r h
    refine foldl_keeps (fun s n => hcolumn r s n) _ _ ?_
    split
    · exact ⟨h.st, h.dev.shotStart hc⟩
    · exact h
  exact foldl_keeps hprobe _ _ (foldl_keeps (fun s i h => ⟨h.st.weightWrite cfg, h.dev⟩) _ s h)

theorem CalWalk.Bounded.calPass (hc : Within d t cfg) {s : CalWalk} (h : s.Bounded d t) :
    (calPass cfg tile bank cal s).Bounded d t := by
  have hestimate : ∀ (s : CalWalk) i, s.Bounded d t → (estimate cfg bank cal s i).Bounded d t :=
    fun _ _ h => ⟨h.st, h.dev.trimWrite hc _ _ _⟩
  have hzero : CalWalk.Bounded d t { s with sum := fun _ => 0, worst := 0, resid := 0 } := ⟨h.st, h.dev⟩
  exact foldl_keeps hestimate _ _ (iterate_keeps (fun _ h => CalWalk.Bounded.calRep hc h) _ _ hzero)

theorem CalWalk.Bounded.calMore (hc : Within d t cfg) (n : ℕ) :
    ∀ s : CalWalk, s.Bounded d t → (calMore cfg tile bank cal n s).Bounded d t := by
  induction n with
  | zero => exact fun s h => h
  | succ n ih =>
    intro s h
    have hrange : CalWalk.Bounded d t { s with range := s.worst * 4 + 8 } := ⟨h.st, h.dev⟩
    exact ih _ (CalWalk.Bounded.calPass hc hrange)

theorem Device.Bounded.calBank (hc : Within d t cfg) (h : dev.Bounded d t) (seed : U32) :
    (calBank cfg tile bank cal (start seed) dev).1.Bounded d t := by
  unfold PtaTile.calBank
  split
  · exact h
  · have hfirst : ∀ range, (PtaTile.calPass cfg tile bank cal { st := start seed, dev, range }).Bounded d t :=
      fun range => CalWalk.Bounded.calPass hc ⟨start_alive seed, h⟩
    dsimp only
    split
    · exact (CalWalk.Bounded.calMore hc _ _ (hfirst _)).dev
    · exact (hfirst _).dev

end Calibration

/-! ## Runs -/

/-- A call of the model that changes a device. -/
inductive Call where
  | modelReset (seed : U32)
  | calReset
  | columnCal (col : ℕ) (gain offs : ℤ)
  | driftAge (cfg : Cfg) (steps : U64)
  | gemm (cfg : Cfg) (bank M N K : ℤ) (A B : List ℤ)
  | calBank (cfg : Cfg) (bank : ℕ) (seed : U32) (cal : CalCfg)

/-- What a call leaves of a device. -/
def Call.on (tile : Tile) (dev : Device) : Call → Device
  | .modelReset seed => tileKernel.modelReset dev seed
  | .calReset => tileKernel.calReset dev
  | .columnCal col gain offs => tileKernel.columnCal dev col gain offs
  | .driftAge cfg steps => tileKernel.driftAge cfg dev steps
  | .gemm cfg bank M N K A B => (tileKernel.gemm cfg tile dev bank M N K A B).1
  | .calBank cfg bank seed cal => (tileKernel.calBank cfg tile dev bank seed cal).1

/-- The configuration a call has. -/
def Call.config : Call → Option Cfg
  | .driftAge cfg _ => some cfg
  | .gemm cfg _ _ _ _ _ _ => some cfg
  | .calBank cfg _ _ _ => some cfg
  | _ => none

theorem Device.Bounded.call {c : Call} (hc : ∀ cfg, c.config = some cfg → Within d t cfg) (h : dev.Bounded d t) :
    (c.on tile dev).Bounded d t := by
  cases c with
  | modelReset seed =>
    refine ⟨fun b i => ?_, h.trim, streamSeed_ne_zero seed (by decide)⟩
    change |if _ then 0 else dev.drift b i| ≤ _
    split
    · rw [abs_zero]
      exact Int.natCast_nonneg d
    · exact h.drift b i
  | calReset =>
    refine ⟨h.drift, fun b i => ?_, h.rng⟩
    change |if _ then 0 else dev.trim b i| ≤ _
    split
    · rw [abs_zero]
      exact Int.natCast_nonneg t
    · exact h.trim b i
  | columnCal col gain offs => exact ⟨h.drift, h.trim, h.rng⟩
  | driftAge cfg steps => exact iterate_keeps (fun _ h => Device.Bounded.driftStep (hc cfg rfl) h) _ _ h
  | gemm cfg bank M N K A B => exact h.gemm (hc cfg rfl) bank M N K A B
  | calBank cfg bank seed cal => exact h.calBank (hc cfg rfl) seed

theorem driftStep_count (cfg : Cfg) (dev : Device) (n : U32) :
    driftStep cfg { dev with count := n } = { driftStep cfg dev with count := n } := by
  have hcell : ∀ b (l : List ℕ) (dev : Device), l.foldl (driftCell cfg b) { dev with count := n } =
      { l.foldl (driftCell cfg b) dev with count := n } := by
    intro b l
    induction l with
    | nil => exact fun _ => rfl
    | cons i l ih => exact fun dev => ih (driftCell cfg b dev i)
  have hbank : ∀ (l : List ℕ) (dev : Device), l.foldl (driftBank cfg) { dev with count := n } =
      { l.foldl (driftBank cfg) dev with count := n } := by
    intro l
    induction l with
    | nil => exact fun _ => rfl
    | cons b l ih =>
      intro dev
      rw [List.foldl_cons, List.foldl_cons, ← ih]
      congr 1
      exact hcell b _ dev
  exact hbank _ dev

/-- Shots that end no drift step are counted. -/
theorem shotStart_iterate (cfg : Cfg) (dev : Device) (n : ℕ) (h : dev.count.toNat + n < 2 ^ cfg.driftLog2.toNat)
    (hlog : cfg.driftLog2.toNat ≤ 32) :
    (shotStart · cfg)^[n] dev = { dev with count := dev.count + BitVec.ofNat 32 n } := by
  induction n with
  | zero => simp
  | succ n ih =>
    have hlap : 2 ^ cfg.driftLog2.toNat ≤ 2 ^ 32 := Nat.pow_le_pow_right (by norm_num) hlog
    have hcount : (dev.count + BitVec.ofNat 32 n).toNat = dev.count.toNat + n := by
      rw [BitVec.toNat_add, BitVec.toNat_ofNat]
      omega
    rw [Function.iterate_succ_apply', ih (by omega)]
    unfold shotStart
    dsimp only
    rw [if_pos (by omega)]
    congr 1
    rw [BitVec.add_assoc]
    congr 1
    exact (BitVec.ofNat_add n 1).symm

/-- The shots of one drift step bring the count back to where it was. -/
theorem shotStart_lap (h : dev.count.toNat < 2 ^ cfg.driftLog2.toNat) (hlog : cfg.driftLog2.toNat ≤ 32) :
    (shotStart · cfg)^[2 ^ cfg.driftLog2.toNat] dev = driftStep cfg dev := by
  have hlap : 2 ^ cfg.driftLog2.toNat ≤ 2 ^ 32 := Nat.pow_le_pow_right (by norm_num) hlog
  have hsplit : 2 ^ cfg.driftLog2.toNat = dev.count.toNat + (1 + (2 ^ cfg.driftLog2.toNat - 1 - dev.count.toNat)) := by
    omega
  -- up to the last count of the lap, the shot that steps, and up to the count again
  have hfirst := shotStart_iterate cfg dev (2 ^ cfg.driftLog2.toNat - 1 - dev.count.toNat)
    (by omega) hlog
  have hlast : (dev.count + BitVec.ofNat 32 (2 ^ cfg.driftLog2.toNat - 1 - dev.count.toNat)).toNat + 1 =
      2 ^ cfg.driftLog2.toNat := by
    rw [BitVec.toNat_add, BitVec.toNat_ofNat]
    omega
  rw [hsplit, Function.iterate_add_apply, Function.iterate_add_apply, hfirst, Function.iterate_one]
  have hstep : shotStart { dev with
        count := dev.count + BitVec.ofNat 32 (2 ^ cfg.driftLog2.toNat - 1 - dev.count.toNat) } cfg =
      { driftStep cfg dev with count := 0 } := by
    unfold shotStart
    dsimp only
    rw [if_neg (by omega)]
    exact driftStep_count cfg dev 0
  rw [hstep, shotStart_iterate cfg _ _ (by simpa using h) hlog]
  have hback := driftStep_count cfg dev dev.count
  dsimp only
  rw [show (0 : U32) + BitVec.ofNat 32 dev.count.toNat = dev.count by simp]
  exact hback.symm

/-- Ageing a device by so many steps leaves what the shots of these steps leave, count included. -/
theorem driftAge_eq (h : dev.count.toNat < 2 ^ cfg.driftLog2.toNat) (hlog : cfg.driftLog2.toNat ≤ 32)
    (steps : U64) :
    (shotStart · cfg)^[2 ^ cfg.driftLog2.toNat * steps.toNat] dev = driftAge dev cfg steps := by
  unfold driftAge
  rw [Function.iterate_mul]
  generalize steps.toNat = n
  induction n generalizing dev with
  | zero => rfl
  | succ n ih =>
    have hcount : (driftStep cfg dev).count = dev.count := by
      rw [show driftStep cfg dev = { driftStep cfg dev with count := dev.count } from
        driftStep_count cfg dev dev.count]
    rw [Function.iterate_succ_apply, Function.iterate_succ_apply, shotStart_lap h hlog]
    exact ih (by rw [hcount]; exact h)

/-- From a count of three, five steps of four shots each. -/
theorem driftAge_eq_five :
    (shotStart · { driftLog2 := 2, driftSigma := 77, driftMax := 300 })^[2 ^ 2 * 5]
        { rows := 2, cols := 3, count := 3 } =
      driftAge { rows := 2, cols := 3, count := 3 } { driftLog2 := 2, driftSigma := 77, driftMax := 300 } 5 :=
  driftAge_eq (by decide) (by decide) 5

end Grxcp.PtaTile
