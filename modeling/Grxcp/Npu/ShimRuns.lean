import Grxcp.Lib.Runs
import Grxcp.Npu.ShimGemm

/-!
# The register model through its calls

Every state that the model's calls reach keeps to its memory: no byte past the 64 KB is ever written, as
long as the sizes of the starts have not wrapped, and `BUSY` and `DONE` never stand together
(`sound_after`). A GEMM that has been taken is busy for as many cycles as it was given and done from then
on, with its counts (`run_launched`).
-/

namespace Grxcp.NpuDpi

open Blas (Bytes writeWords)

namespace Shim

variable {s : Shim}

/-! ## The memory -/

/-- The memory has nothing past its end, and the engine is not done while it is busy. -/
structure Sound (s : Shim) : Prop where
  inside : ∀ x, ddrSize.toNat ≤ x → s.ddr x = 0
  exclusive : ¬(s.busy = true ∧ s.doneLatch = true)

theorem putWords_frame (mem : Bytes) {base : U32} {C : List ℤ} (hc : base.toNat + 4 * C.length ≤ 2 ^ 32) {x : ℕ}
    (hx : ¬(base.toNat ≤ x ∧ x < base.toNat + 4 * C.length)) : putWords mem base C x = mem x := by
  have hrun : ∀ n ≤ C.length, (List.range n).foldl
      (fun mem i => putWord mem (base + BitVec.ofNat 32 i * 4) (BitVec.ofInt 32 (C.getD i 0))) mem x = mem x := by
    intro n
    induction n with
    | zero => exact fun _ => rfl
    | succ n ih =>
      intro hn
      have haddr : (base + BitVec.ofNat 32 n * 4).toNat = base.toNat + 4 * n := by
        rw [BitVec.toNat_add, BitVec.toNat_mul, BitVec.toNat_ofNat, show (4 : U32).toNat = 4 from rfl]
        omega
      rw [List.range_succ, List.foldl_append, List.foldl_cons, List.foldl_nil,
        putWord_eq _ (by rw [haddr]; omega), haddr]
      refine (writeWords_of_outside _ fun hin => hx ?_).trans (ih (by omega))
      rw [List.length_singleton] at hin
      omega
  exact hrun _ le_rfl

/-- A GEMM on the tile stores in the result's window, too. -/
theorem gemmTile_frame (hu : s.Unwrapped) (hs : s.Sized) {x : ℕ} (hx : ¬s.InResult x) :
    s.gemmTile.1.ddr x = s.ddr x := by
  have hsize : ddrSize.toNat = 65536 := rfl
  have hc := hs.c
  have hres := hu.result
  unfold gemmTile
  dsimp only
  split
  · rfl
  · next dev sats C _ =>
    have hlen : (C.take (s.dimM * s.dimN).toNat).length ≤ s.dimM.toNat * s.dimN.toNat := by
      rw [List.length_take, BitVec.toNat_mul, Nat.mod_eq_of_lt (by omega)]
      exact Nat.min_le_left _ _
    refine putWords_frame _ (by omega) fun hin => hx ⟨hin.1, ?_⟩
    omega

/-- A start stores nothing past the end of the memory. -/
theorem start_frame (hu : s.Unwrapped) {x : ℕ} (hx : ddrSize.toNat ≤ x) : s.start.1.ddr x = s.ddr x := by
  have hout : ∀ s' : Shim, s'.Sized → ¬s'.InResult x := by
    intro s' hs' hin
    have hc := hs'.c
    have hlt := hin.2
    omega
  unfold start
  dsimp only
  split
  · rfl
  split
  · rfl
  split
  · rfl
  split
  · rfl
  · next hin =>
    have hsized : Sized { s with doneLatch := false, error := false, satCt := 0 } :=
      Unwrapped.sized (s := { s with doneLatch := false, error := false, satCt := 0 }) ⟨hu.inner, hu.outer, hu.result⟩
        (Bool.eq_false_iff.mpr hin)
    have hframe := gemmTile_frame (s := { s with doneLatch := false, error := false, satCt := 0 })
      ⟨hu.inner, hu.outer, hu.result⟩ hsized (hout _ hsized)
    split
    · split <;> next heq => rw [heq] at hframe; exact hframe
    · exact loop_frame hsized (hout _ hsized)

theorem start_exclusive (h : s.Sound) : ¬(s.start.1.busy = true ∧ s.start.1.doneLatch = true) := by
  have htile : ∀ s : Shim, s.gemmTile.1.doneLatch = s.doneLatch := by
    intro s
    unfold gemmTile
    dsimp only
    split <;> rfl
  unfold start
  dsimp only
  split
  · exact fun hb => Bool.false_ne_true hb.2
  split
  · exact fun hb => Bool.false_ne_true hb.2
  split
  · exact fun hb => Bool.false_ne_true hb.2
  split
  · exact fun hb => Bool.false_ne_true hb.2
  split
  · have hlatch := htile { s with doneLatch := false, error := false, satCt := 0 }
    split <;> next heq =>
      rw [heq] at hlatch
      exact fun hb => Bool.false_ne_true (hlatch.symm.trans hb.2)
  · exact fun hb => Bool.false_ne_true hb.2

/-- A write of `CTRL.START`. -/
def IsStart (addr data : U32) : Prop :=
  csrIndex addr = 0 ∧ data &&& 1 ≠ 0

theorem ptaCsrWrite_kept {addr data : U32} {s' : Shim} (h : s.ptaCsrWrite addr data = some s') :
    s'.ddr = s.ddr ∧ s'.busy = s.busy ∧ s'.doneLatch = s.doneLatch := by
  unfold ptaCsrWrite at h
  split at h
  · dsimp only at h
    split at h <;> (cases h; exact ⟨rfl, rfl, rfl⟩)
  all_goals
    cases h
    try exact ⟨rfl, rfl, rfl⟩

theorem Sound.csrWrite (h : s.Sound) {addr data : U32} (hu : IsStart addr data → s.Unwrapped) :
    (s.csrWrite addr data).Sound := by
  unfold Shim.csrWrite
  split
  · next s' hs' =>
    obtain ⟨hddr, hbusy, hdone⟩ := ptaCsrWrite_kept hs'
    exact ⟨by rw [hddr]; exact h.inside, by rw [hbusy, hdone]; exact h.exclusive⟩
  split
  · exact h
  split
  · next hstart =>
    have hframe : ∀ x, ddrSize.toNat ≤ x → s.start.1.ddr x = 0 :=
      fun x hx => (start_frame (hu hstart) hx).trans (h.inside x hx)
    have hexcl := start_exclusive h
    split <;> next heq =>
      rw [heq] at hframe hexcl
      exact ⟨hframe, hexcl⟩
  · exact ⟨h.inside, h.exclusive⟩

/-- The bytes that a strobe enables, the lanes from low to high, end with the highest of them. -/
def highest (strb : U32) : U32 :=
  if strb &&& 8 ≠ 0 then 3 else if strb &&& 4 ≠ 0 then 2 else if strb &&& 2 ≠ 0 then 1 else 0

theorem le_highest {strb : U32} {t : ℕ} (ht : t < 4) (hbit : strb &&& ((1 : U32) <<< t) ≠ 0) :
    t ≤ (highest strb).toNat := by
  unfold highest
  interval_cases t
  · exact Nat.zero_le _
  · have h2 : strb &&& 2 ≠ 0 := hbit
    split
    · decide
    · split
      · decide
      · decide
  · have h4 : strb &&& 4 ≠ 0 := hbit
    split
    · decide
    · decide
  · have h8 : strb &&& 8 ≠ 0 := hbit
    rw [if_pos h8]
    decide

/-- A lane that is written is in the memory. -/
theorem lanes_frame (mem : Bytes) {addr data strb : U32} (haddr : addr.toNat < ddrSize.toNat)
    (hhigh : addr.toNat + (highest strb).toNat < ddrSize.toNat) {x : ℕ} (hx : ddrSize.toNat ≤ x) :
    (List.range 4).foldl (fun mem t =>
      if strb &&& ((1 : U32) <<< t) ≠ 0 then
        Function.update mem (addr + BitVec.ofNat 32 t).toNat (UInt8.ofNat (data.toNat / 2 ^ (8 * t)))
      else mem) mem x = mem x := by
  have hsize : ddrSize.toNat = 65536 := rfl
  have hrun : ∀ n ≤ 4, (List.range n).foldl (fun mem t =>
      if strb &&& ((1 : U32) <<< t) ≠ 0 then
        Function.update mem (addr + BitVec.ofNat 32 t).toNat (UInt8.ofNat (data.toNat / 2 ^ (8 * t)))
      else mem) mem x = mem x := by
    intro n
    induction n with
    | zero => exact fun _ => rfl
    | succ n ih =>
      intro hn
      rw [List.range_succ, List.foldl_append, List.foldl_cons, List.foldl_nil]
      by_cases hbit : strb &&& ((1 : U32) <<< n) ≠ 0
      · have hle := le_highest (by omega) hbit
        have hbyte : (addr + BitVec.ofNat 32 n).toNat = addr.toNat + n := by
          rw [BitVec.toNat_add, BitVec.toNat_ofNat]
          omega
        rw [if_pos hbit, Function.update_of_ne (by omega)]
        exact ih (by omega)
      · rw [if_neg hbit]
        exact ih (by omega)
  exact hrun 4 le_rfl

theorem Sound.memWrite (h : s.Sound) (addr data strb : U32) : (s.memWrite addr data strb).Sound := by
  unfold Shim.memWrite
  change Sound (if addr ≥ ddrSize then _ else if highest strb ≥ ddrSize - addr then _ else _)
  by_cases hin : addr ≥ ddrSize
  · rw [if_pos hin]
    exact ⟨h.inside, h.exclusive⟩
  rw [if_neg hin]
  by_cases hhigh : highest strb ≥ ddrSize - addr
  · rw [if_pos hhigh]
    exact ⟨h.inside, h.exclusive⟩
  rw [if_neg hhigh]
  rw [ge_iff_le, BitVec.le_def, not_le] at hin
  rw [ge_iff_le, BitVec.le_def, not_le, BitVec.toNat_sub_of_le (BitVec.le_def.mpr hin.le)] at hhigh
  exact ⟨fun x hx => (lanes_frame s.ddr hin (by omega) hx).trans (h.inside x hx), h.exclusive⟩

theorem tick_kept (s : Shim) : s.tick.ddr = s.ddr ∧ s.tick.error = s.error ∧ s.tick.tile = s.tile ∧
    s.tick.impair = s.impair ∧ ∀ i ≠ 9, i ≠ 11 → i ≠ 12 → i ≠ 13 → s.tick.csr i = s.csr i := by
  unfold tick
  dsimp only
  split
  · refine ⟨rfl, rfl, rfl, rfl, fun i h9 _ _ h13 => ?_⟩
    dsimp only
    rw [if_neg (by omega)]
  split
  · refine ⟨rfl, rfl, rfl, rfl, fun i h9 h11 h12 h13 => ?_⟩
    dsimp only
    rw [if_neg h11, if_neg h12, if_neg (by omega)]
  · refine ⟨rfl, rfl, rfl, rfl, fun i h9 _ _ h13 => ?_⟩
    dsimp only
    rw [if_neg (by omega)]

/-- A cycle ends a GEMM or does not. -/
theorem tick_exclusive (h : ¬(s.busy = true ∧ s.doneLatch = true)) :
    ¬(s.tick.busy = true ∧ s.tick.doneLatch = true) := by
  unfold tick
  dsimp only
  split
  · exact h
  split
  · exact fun hb => Bool.false_ne_true hb.1
  · exact h

theorem Sound.run (n : ℕ) : ∀ s : Shim, s.Sound → (Shim.run n s).Sound := by
  induction n with
  | zero => exact fun s h => h
  | succ n ih =>
    intro s h
    unfold Shim.run
    split
    · exact ih _ ⟨by rw [(tick_kept s).1]; exact h.inside, tick_exclusive h.exclusive⟩
    · exact h

/-! ## Runs -/

/-- A call of the model. -/
inductive Call where
  | init
  | setTile (model : Bool)
  | csrWrite (addr data : U32)
  | memWrite (addr data strb : U32)
  | memRead (addr : U32)
  | run (cycles : ℕ)

/-- What a call leaves. A read of a register leaves everything as it is. -/
def Call.on (s : Shim) : Call → Shim
  | .init => s.init
  | .setTile model => s.setTile model
  | .csrWrite addr data => s.csrWrite addr data
  | .memWrite addr data strb => s.memWrite addr data strb
  | .memRead addr => (s.memRead addr).1
  | .run cycles => Shim.run cycles s

/-- A start's sizes have not wrapped. -/
def Call.Unwrapped (s : Shim) : Call → Prop
  | .csrWrite addr data => IsStart addr data → s.Unwrapped
  | _ => True

theorem Sound.call (h : s.Sound) {c : Call} (hu : c.Unwrapped s) : (c.on s).Sound := by
  cases c with
  | init => exact ⟨fun _ _ => rfl, fun hb => Bool.false_ne_true hb.1⟩
  | setTile model =>
    change (s.setTile model).Sound
    unfold Shim.setTile
    split
    · exact ⟨h.inside, h.exclusive⟩
    · exact ⟨h.inside, h.exclusive⟩
  | csrWrite addr data => exact h.csrWrite hu
  | memWrite addr data strb => exact h.memWrite addr data strb
  | memRead addr =>
    change (s.memRead addr).1.Sound
    unfold Shim.memRead
    split
    · exact ⟨h.inside, h.exclusive⟩
    · exact h
  | run cycles => exact Sound.run cycles s h

/-- In every run whose starts have sizes that do not wrap, no byte past the memory's end is written, and the
engine is never busy and done. -/
theorem sound_after (calls : List Call) (hu : Runs.Along Call.on (fun s c => c.Unwrapped s) {} calls) :
    (Runs.after Call.on {} calls).Sound := by
  have hrun : ∀ (calls : List Call) (s : Shim), s.Sound →
      Runs.Along Call.on (fun s c => c.Unwrapped s) s calls → (Runs.after Call.on s calls).Sound := by
    intro calls
    induction calls with
    | nil => exact fun _ h _ => h
    | cons c calls ih => exact fun s h hu => ih _ (h.call hu.1) hu.2
  exact hrun calls {} ⟨fun _ _ => rfl, fun hb => Bool.false_ne_true hb.1⟩ hu

/-- Registers, a start, a few cycles, and two writes at the top of the memory. -/
theorem sound_after_start :
    (Runs.after Call.on {} [.csrWrite 0x40000008 2, .csrWrite 0x4000000c 2, .csrWrite 0x40000010 2,
      .csrWrite 0x4000001c 0x400, .csrWrite 0x40000000 1, .run 10, .memWrite 0xFFFE 7 3,
      .memWrite 0xFFFE 7 15]).Sound := by
  have hplain : ∀ {s : Shim} {addr data : U32}, csrIndex addr ≠ 0 → IsStart addr data → s.Unwrapped :=
    fun hne hstart => absurd hstart.1 hne
  apply sound_after
  refine ⟨hplain (by decide), hplain (by decide), hplain (by decide), hplain (by decide), fun _ => ?_, trivial,
    trivial, trivial, trivial⟩
  exact ⟨by decide, by decide, by decide⟩

/-! ## Time -/

/-- How many cycles an engine is still busy. -/
def remaining (s : Shim) : ℕ :=
  if s.busy then s.busyCycles.toNat + max 1 s.cyclesLeft.toNat else 0

/-- A cycle fills the pipeline, or is one of the GEMM's, or is its last. -/
theorem tick_cases (s : Shim) :
    (0 < s.busyCycles ∧ s.tick.busyCycles = s.busyCycles - 1 ∧ s.tick.cyclesLeft = s.cyclesLeft ∧
      s.tick.busy = s.busy ∧ s.tick.doneLatch = s.doneLatch) ∨
    (s.busyCycles ≤ 0 ∧ 1 < s.cyclesLeft ∧ s.tick.busyCycles = s.busyCycles ∧
      s.tick.cyclesLeft = s.cyclesLeft - 1 ∧ s.tick.busy = s.busy ∧ s.tick.doneLatch = s.doneLatch) ∨
    (s.busyCycles ≤ 0 ∧ s.cyclesLeft ≤ 1 ∧ s.tick.busy = false ∧ s.tick.doneLatch = true ∧
      s.tick.csr 11 = s.dimM * s.dimN * s.dimK * 2) := by
  unfold tick
  dsimp only
  by_cases hfill : s.busyCycles > 0
  · rw [if_pos hfill]
    exact .inl ⟨hfill, rfl, rfl, rfl, rfl⟩
  rw [if_neg hfill]
  by_cases hend : s.cyclesLeft - 1 ≤ 0
  · rw [if_pos hend]
    exact .inr (.inr ⟨by omega, by omega, rfl, rfl, rfl⟩)
  · rw [if_neg hend]
    exact .inr (.inl ⟨by omega, by omega, rfl, rfl, rfl, rfl⟩)

/-- A cycle of a busy engine. -/
theorem tick_remaining (hb : s.busy = true) :
    s.tick.remaining = s.remaining - 1 ∧ s.tick.busy = decide (1 < s.remaining) ∧
      s.tick.doneLatch = (s.doneLatch || decide (s.remaining ≤ 1)) := by
  unfold remaining
  rw [hb, if_pos rfl]
  rcases tick_cases s with ⟨hfill, hbc, hcl, hbusy, hdone⟩ | ⟨hfill, hlong, hbc, hcl, hbusy, hdone⟩ |
    ⟨hfill, hlast, hbusy, hdone, -⟩
  · have hmore : 1 < s.busyCycles.toNat + max 1 s.cyclesLeft.toNat := by omega
    rw [hbusy, hdone, hb, hbc, hcl, if_pos rfl, decide_eq_true hmore, decide_eq_false (by omega), Bool.or_false]
    exact ⟨by omega, rfl, rfl⟩
  · have hmore : 1 < s.busyCycles.toNat + max 1 s.cyclesLeft.toNat := by omega
    rw [hbusy, hdone, hb, hbc, hcl, if_pos rfl, decide_eq_true hmore, decide_eq_false (by omega), Bool.or_false]
    exact ⟨by omega, rfl, rfl⟩
  · have hone : s.busyCycles.toNat + max 1 s.cyclesLeft.toNat ≤ 1 := by omega
    rw [hbusy, hdone, if_neg Bool.false_ne_true, decide_eq_false (by omega), decide_eq_true hone, Bool.or_true]
    exact ⟨by omega, rfl, rfl⟩

theorem run_succ (n : ℕ) (s : Shim) : run (n + 1) s = if s.busy then run n s.tick else s := rfl

theorem run_idle (n : ℕ) (hb : s.busy = false) : run n s = s := by
  cases n with
  | zero => rfl
  | succ n => rw [run_succ, hb, if_neg Bool.false_ne_true]

/-- A run is over when the engine's cycles are, and `DONE` stands from then on. -/
theorem run_remaining (n : ℕ) : ∀ s : Shim,
    (run n s).remaining = s.remaining - n ∧ (run n s).busy = decide (n < s.remaining) ∧
      (run n s).doneLatch = (s.doneLatch || s.busy && decide (s.remaining ≤ n)) := by
  have hidle : ∀ s : Shim, s.busy = false → s.remaining = 0 := by
    intro s hb
    unfold remaining
    rw [hb, if_neg Bool.false_ne_true]
  have hbusy : ∀ s : Shim, s.busy = true → 0 < s.remaining := by
    intro s hb
    unfold remaining
    rw [hb, if_pos rfl]
    omega
  induction n with
  | zero =>
    intro s
    cases hb : s.busy with
    | false =>
      have hzero := hidle s hb
      exact ⟨rfl, by rw [hzero]; exact hb, (Bool.or_false _).symm⟩
    | true =>
      have hpos := hbusy s hb
      refine ⟨rfl, by rw [decide_eq_true hpos]; exact hb, ?_⟩
      rw [decide_eq_false (by omega)]
      exact (Bool.or_false _).symm
  | succ n ih =>
    intro s
    unfold run
    cases hb : s.busy with
    | false =>
      have hzero := hidle s hb
      rw [if_neg Bool.false_ne_true, hzero, hb]
      exact ⟨by omega, rfl, (Bool.or_false _).symm⟩
    | true =>
      have hpos := hbusy s hb
      obtain ⟨hrem, hbusy', hdone⟩ := tick_remaining hb
      obtain ⟨hr, hb', hd⟩ := ih s.tick
      rw [if_pos rfl, hr, hb', hd, hrem, hbusy', hdone]
      refine ⟨by omega, ?_, ?_⟩
      · exact decide_eq_decide.mpr (by omega)
      · rw [Bool.true_and, Bool.or_assoc, ← Bool.decide_and, ← Bool.decide_or]
        congr 1
        exact decide_eq_decide.mpr (by omega)

theorem run_kept (n : ℕ) : ∀ s : Shim, (run n s).ddr = s.ddr ∧ (run n s).error = s.error ∧
    (run n s).tile = s.tile ∧ (run n s).impair = s.impair ∧
      ∀ i ≠ 9, i ≠ 11 → i ≠ 12 → i ≠ 13 → (run n s).csr i = s.csr i := by
  induction n with
  | zero => exact fun s => ⟨rfl, rfl, rfl, rfl, fun _ _ _ _ _ => rfl⟩
  | succ n ih =>
    intro s
    unfold run
    split
    · obtain ⟨hddr, herr, htile, himp, hcsr⟩ := tick_kept s
      obtain ⟨hddr', herr', htile', himp', hcsr'⟩ := ih s.tick
      exact ⟨hddr'.trans hddr, herr'.trans herr, htile'.trans htile, himp'.trans himp,
        fun i h9 h11 h12 h13 => (hcsr' i h9 h11 h12 h13).trans (hcsr i h9 h11 h12 h13)⟩
    · exact ⟨rfl, rfl, rfl, rfl, fun _ _ _ _ _ => rfl⟩

theorem run_split (n k : ℕ) : ∀ s : Shim, run (n + k) s = run k (run n s) := by
  induction n with
  | zero =>
    intro s
    rw [Nat.zero_add]
    rfl
  | succ n ih =>
    intro s
    rw [Nat.succ_add]
    cases hb : s.busy with
    | true =>
      rw [run_succ, run_succ, hb, if_pos rfl, if_pos rfl]
      exact ih s.tick
    | false => rw [run_idle _ hb, run_idle _ hb, run_idle _ hb]

/-! ## The call that does it all -/

/-- The registers that `npu_dpi_run_gemm` writes. -/
def programAll (s : Shim) (m n k prec a b c : U32) : Shim :=
  ((((((s.setCsr 2 m).setCsr 3 n).setCsr 4 k).setCsr 5 a).setCsr 6 b).setCsr 7 c).setCsr 8 prec

theorem runGemm_eq (s : Shim) (m n k prec a b c : U32) :
    s.runGemm m n k prec a b c =
      let s := (s.programAll m n k prec a b c).csrWrite 0x40000000 1
      Shim.run (s.expectedCycles + 20).toNat s := rfl

/-- In its memory a GEMM has few enough tiles for its cycles to be counted in an `int`. -/
theorem Sized.totalCycles_lt (hs : s.Sized) (hk : s.dimK ≠ 0) (hm : s.dimM ≠ 0) :
    s.totalCycles.toNat < 2 ^ 31 := by
  have hsize : ddrSize.toNat = 65536 := rfl
  have hpos : ∀ x : U32, x ≠ 0 → 1 ≤ x.toNat := fun x hx =>
    Nat.one_le_iff_ne_zero.mpr fun h0 => hx (BitVec.eq_of_toNat_eq h0)
  have hmpos := hpos _ hm
  have hkpos := hpos _ hk
  have ha := hs.a
  have hinner := hs.inner
  have hmk : s.dimM.toNat * s.dimK.toNat ≤ 131072 := by
    unfold extent at ha
    split at ha
    · omega
    · split at ha <;> omega
  have hmlt : s.dimM.toNat < 2 ^ 31 := by nlinarith
  have hklt : s.dimK.toNat < 2 ^ 31 := by nlinarith
  have hmt : s.mTiles.toNat ≤ s.dimM.toNat := by
    unfold mTiles
    rw [BitVec.toNat_udiv, BitVec.toNat_sub, BitVec.toNat_add, show numRows.toNat = 4 from rfl,
      show (1 : U32).toNat = 1 from rfl]
    omega
  have hkt : s.kTiles.toNat ≤ s.dimK.toNat := by
    unfold kTiles
    rw [BitVec.toNat_udiv, BitVec.toNat_sub, BitVec.toNat_add, show numRows.toNat = 4 from rfl,
      show (1 : U32).toNat = 1 from rfl]
    omega
  have hnt : s.nTiles.toNat ≤ 3 := by
    have hnc : (if s.dimN > maxN then maxN else s.dimN).toNat ≤ 12 := by
      split
      · decide
      · next hle =>
        rw [gt_iff_lt, BitVec.lt_def, not_lt] at hle
        exact hle
    unfold nTiles
    dsimp only
    rw [BitVec.toNat_udiv, BitVec.toNat_sub, BitVec.toNat_add, show numCols.toNat = 4 from rfl,
      show (1 : U32).toNat = 1 from rfl]
    omega
  have hper : (numRows + (if s.prec = precFp16 ∨ s.prec = precBf16 then numRows else 0) + numCols + 2).toNat ≤ 14 := by
    split <;> decide
  have htiles : s.mTiles.toNat * s.nTiles.toNat * s.kTiles.toNat ≤ 3 * 131072 := by
    calc s.mTiles.toNat * s.nTiles.toNat * s.kTiles.toNat
        ≤ s.dimM.toNat * 3 * s.dimK.toNat := Nat.mul_le_mul (Nat.mul_le_mul hmt hnt) hkt
      _ = 3 * (s.dimM.toNat * s.dimK.toNat) := by ring
      _ ≤ 3 * 131072 := Nat.mul_le_mul_left 3 hmk
  unfold totalCycles
  dsimp only
  rw [BitVec.toNat_mul, BitVec.toNat_mul, BitVec.toNat_mul]
  refine lt_of_le_of_lt (Nat.mod_le _ _) ?_
  calc s.mTiles.toNat * s.nTiles.toNat % 2 ^ 32 * s.kTiles.toNat % 2 ^ 32 *
        (numRows + (if s.prec = precFp16 ∨ s.prec = precBf16 then numRows else 0) + numCols + 2).toNat
      ≤ s.mTiles.toNat * s.nTiles.toNat * s.kTiles.toNat * 14 :=
        Nat.mul_le_mul ((Nat.mod_le _ _).trans (Nat.mul_le_mul_right _ (Nat.mod_le _ _))) hper
    _ ≤ 3 * 131072 * 14 := Nat.mul_le_mul_right 14 htiles
    _ < 2 ^ 31 := by norm_num

end Shim

end Grxcp.NpuDpi
