import Grxcp.Pta.TwinRuns

/-!
# The seed of every GEMM

`PTA_GEMM_CT` counts the GEMMs started since the last write of `PTA_SEED` or reset, and the `i`-th of
them runs on `gemm_seed(PTA_SEED, i)`: a refused command takes no index, a queued one takes its index
when it starts, and a calibration draws from `PTA_CAL_SEED` and its own count.
-/

namespace Grxcp.PtaTwin

open Runs

variable {Dev P : Type}

/-! ## What the moves say -/

/-- The GEMMs started since the last write of `PTA_SEED` or reset. -/
def startsSince (ms : List (Move P)) : ℕ :=
  ms.foldl (fun n m => match m with
    | .start _ => n + 1
    | .store off _ => if off = 0x050 then 0 else n
    | .reset => 0
    | _ => n) 0

/-- The last value written to `PTA_SEED` since the last reset. -/
def lastSeed (ms : List (Move P)) : U32 :=
  ms.foldl (fun s m => match m with
    | .store off v => if off = 0x050 then v else s
    | .reset => 0
    | _ => s) 0

/-- The last value written to `PTA_CAL_SEED` since the last reset. -/
def lastCalSeed (ms : List (Move P)) : U32 :=
  ms.foldl (fun s m => match m with
    | .store off v => if off = 0x0DC then v else s
    | .reset => 0
    | _ => s) 0

/-- The calibrations that were not refused and have ended since the last reset. -/
def calsSince (ms : List (Move P)) : ℕ :=
  ms.foldl (fun n m => match m with
    | .calEnd false => n + 1
    | .reset => 0
    | _ => n) 0

theorem startsSince_snoc (ms : List (Move P)) (m : Move P) :
    startsSince (ms ++ [m]) = match m with
      | .start _ => startsSince ms + 1
      | .store off _ => if off = 0x050 then 0 else startsSince ms
      | .reset => 0
      | _ => startsSince ms := by
  unfold startsSince
  rw [List.foldl_append]
  rfl

theorem lastSeed_snoc (ms : List (Move P)) (m : Move P) :
    lastSeed (ms ++ [m]) = match m with
      | .store off v => if off = 0x050 then v else lastSeed ms
      | .reset => 0
      | _ => lastSeed ms := by
  unfold lastSeed
  rw [List.foldl_append]
  rfl

theorem lastCalSeed_snoc (ms : List (Move P)) (m : Move P) :
    lastCalSeed (ms ++ [m]) = match m with
      | .store off v => if off = 0x0DC then v else lastCalSeed ms
      | .reset => 0
      | _ => lastCalSeed ms := by
  unfold lastCalSeed
  rw [List.foldl_append]
  rfl

theorem calsSince_snoc (ms : List (Move P)) (m : Move P) :
    calsSince (ms ++ [m]) = match m with
      | .calEnd false => calsSince ms + 1
      | .reset => 0
      | _ => calsSince ms := by
  unfold calsSince
  rw [List.foldl_append]
  rfl

variable {k : TileKernel Dev} {t : Twin Dev P}

/-! ## What a move does to the counters -/

/-- The registers that name the next GEMM and the next calibration. -/
structure SameCounters (r r' : Regs) : Prop where
  gemmCt : r'.gemmCt = r.gemmCt
  seed : r'.seed = r.seed
  calCt : r'.calCt = r.calCt
  calSeed : r'.calSeed = r.calSeed

theorem SameCounters.refl (r : Regs) : SameCounters r r :=
  ⟨rfl, rfl, rfl, rfl⟩

theorem storeCtrl_counters (k : TileKernel Dev) (t : Twin Dev P) (v : U32) :
    SameCounters t.regs (storeCtrl k t v).regs := by
  unfold storeCtrl
  dsimp only
  repeat' split
  all_goals exact ⟨rfl, rfl, rfl, rfl⟩

theorem toNat_ne {off : U32} {n : ℕ} (hn : n < 2 ^ 32) (h : off ≠ BitVec.ofNat 32 n) :
    off.toNat ≠ n := by
  intro he
  apply h
  apply BitVec.eq_of_toNat_eq
  rw [he, BitVec.toNat_ofNat, Nat.mod_eq_of_lt hn]

theorem storeReg_counters {r : Regs} {off : U32} (v : U32) (h : off ≠ 0x050) (hc : off ≠ 0x0DC) :
    SameCounters r (storeReg r off.toNat v) := by
  have hs : off.toNat ≠ 0x050 := toNat_ne (by decide) h
  have hcs : off.toNat ≠ 0x0DC := toNat_ne (by decide) hc
  unfold storeReg
  split <;> first | exact ⟨rfl, rfl, rfl, rfl⟩ | contradiction

/-- A register write away from the two seeds. -/
theorem storeWord_counters (k : TileKernel Dev) (t : Twin Dev P) {off : U32} (v : U32)
    (h : off ≠ 0x050) (hc : off ≠ 0x0DC) :
    SameCounters t.regs (storeWord k t off v).regs := by
  unfold storeWord
  split
  · exact storeCtrl_counters k t v
  unfold write32 sendAffine
  dsimp only
  repeat' split
  case _ => exact .refl _
  case _ => exact ⟨rfl, rfl, rfl, rfl⟩
  case _ => exact .refl _
  case _ => exact ⟨rfl, rfl, rfl, rfl⟩
  case _ => exact .refl _
  case _ => exact storeReg_counters v h hc

theorem storeWord_seed (k : TileKernel Dev) (t : Twin Dev P) (v : U32) :
    storeWord k t 0x050 v = { t with regs := { t.regs with seed := v, gemmCt := 0 } } := rfl

theorem storeWord_calSeed (k : TileKernel Dev) (t : Twin Dev P) (v : U32) :
    storeWord k t 0x0DC v = { t with regs := { t.regs with calSeed := v } } := rfl

theorem read32_counters (t : Twin Dev P) (off : U32) :
    SameCounters t.regs (read32 t off).1.regs := by
  unfold read32
  dsimp only
  repeat' split
  all_goals exact ⟨rfl, rfl, rfl, rfl⟩

theorem copyMallocs_counters (t : Twin Dev P) (c : Cmd P) :
    SameCounters t.regs (copyMallocs t c).2.regs := by
  unfold copyMallocs Twin.malloc
  dsimp only
  repeat' split
  all_goals exact ⟨rfl, rfl, rfl, rfl⟩

theorem age_counters (k : TileKernel Dev) (t : Twin Dev P) (steps : U64) :
    SameCounters t.regs (age k t steps).2.regs := by
  unfold age
  repeat' split
  all_goals exact ⟨rfl, rfl, rfl, rfl⟩

theorem gemmEnd_counters (t : Twin Dev P) : SameCounters t.regs (gemmEnd t).1.regs := by
  unfold gemmEnd
  dsimp only
  split <;> exact .refl _

/-- The end of a calibration counts it unless it was refused. -/
theorem calEnd_counters (t : Twin Dev P) :
    (calEnd t).regs.gemmCt = t.regs.gemmCt ∧ (calEnd t).regs.seed = t.regs.seed ∧
      (calEnd t).regs.calCt = (if t.cal.refused then t.regs.calCt else t.regs.calCt + 1) ∧
      (calEnd t).regs.calSeed = t.regs.calSeed := by
  unfold calEnd Regs.raiseIrq
  dsimp only
  cases t.cal.refused <;> cases t.cal.clamped <;> exact ⟨rfl, rfl, rfl, rfl⟩

/-- What every register that names the next GEMM or calibration is after a run. -/
structure Counted (s : History Dev P) : Prop where
  gemmCt : s.twin.regs.gemmCt = BitVec.ofNat 32 (startsSince s.moves)
  seed : s.twin.regs.seed = lastSeed s.moves
  calCt : s.twin.regs.calCt = BitVec.ofNat 32 (calsSince s.moves)
  calSeed : s.twin.regs.calSeed = lastCalSeed s.moves

theorem Counted.new (b : Build) (dev : Dev) (heap : ℕ → Bool) :
    Counted (History.new b dev heap : History Dev P) :=
  ⟨rfl, rfl, rfl, rfl⟩

theorem ofNat_succ (n : ℕ) : BitVec.ofNat 32 n + 1 = BitVec.ofNat 32 (n + 1) :=
  (BitVec.ofNat_add n 1).symm

theorem Counted.step {s : History Dev P} (h : Counted s) {m : Move P}
    (hm : m.Ready k s.twin) : Counted (s.step k m) := by
  -- a move that none of the four counts looks at
  have hsame : ∀ m : Move P, SameCounters s.twin.regs (m.apply k s.twin).1.regs →
      startsSince (s.moves ++ [m]) = startsSince s.moves →
      lastSeed (s.moves ++ [m]) = lastSeed s.moves →
      calsSince (s.moves ++ [m]) = calsSince s.moves →
      lastCalSeed (s.moves ++ [m]) = lastCalSeed s.moves → Counted (s.step k m) := by
    intro m hr h₁ h₂ h₃ h₄
    exact ⟨hr.gemmCt.trans (h.gemmCt.trans (congrArg _ h₁.symm)),
      hr.seed.trans (h.seed.trans h₂.symm), hr.calCt.trans (h.calCt.trans (congrArg _ h₃.symm)),
      hr.calSeed.trans (h.calSeed.trans h₄.symm)⟩
  cases m with
  | start c =>
    obtain ⟨-, -, sats, sums, dev, -, heq⟩ := gemmBegin_started hm.2.2.2 hm.1
    have hr : (s.step k (.start c)).twin.regs =
        (gemmBegin k { s.twin with q := s.twin.q.tail } c).1.regs := rfl
    have hmoves : (s.step k (.start c)).moves = s.moves ++ [.start c] := rfl
    rw [heq] at hr
    refine ⟨?_, ?_, ?_, ?_⟩
    · rw [hr, hmoves, startsSince_snoc, ← ofNat_succ, ← h.gemmCt]
    · rw [hr, hmoves, lastSeed_snoc]
      exact h.seed
    · rw [hr, hmoves, calsSince_snoc]
      exact h.calCt
    · rw [hr, hmoves, lastCalSeed_snoc]
      exact h.calSeed
  | refuse c =>
    obtain ⟨heap, dev, heq⟩ := gemmBegin_refused_any hm.2.2.2
    refine hsame _ ?_ (startsSince_snoc ..) (lastSeed_snoc ..) (calsSince_snoc ..)
      (lastCalSeed_snoc ..)
    show SameCounters s.twin.regs (gemmBegin k { s.twin with q := s.twin.q.tail } c).1.regs
    rw [heq]
    exact ⟨rfl, rfl, rfl, rfl⟩
  | calEnd refused =>
    obtain ⟨h₁, h₂, h₃, h₄⟩ := calEnd_counters s.twin
    have hmoves : (s.step k (.calEnd refused)).moves = s.moves ++ [.calEnd refused] := rfl
    refine ⟨?_, ?_, ?_, ?_⟩
    · rw [hmoves, startsSince_snoc]
      exact h₁.trans h.gemmCt
    · rw [hmoves, lastSeed_snoc]
      exact h₂.trans h.seed
    · rw [hmoves]
      refine h₃.trans ?_
      rw [hm.2.2, calsSince_snoc]
      cases refused with
      | true => exact h.calCt
      | false =>
        show s.twin.regs.calCt + 1 = BitVec.ofNat 32 (calsSince s.moves + 1)
        rw [← ofNat_succ, ← h.calCt]
    · rw [hmoves, lastCalSeed_snoc]
      exact h₄.trans h.calSeed
  | store off v =>
    have hmoves : (s.step k (.store off v)).moves = s.moves ++ [.store off v] := rfl
    by_cases ho : off = 0x050
    · subst ho
      refine ⟨?_, ?_, ?_, ?_⟩
      · rw [hmoves, startsSince_snoc]
        rfl
      · rw [hmoves, lastSeed_snoc]
        rfl
      · rw [hmoves, calsSince_snoc]
        exact h.calCt
      · rw [hmoves, lastCalSeed_snoc]
        exact h.calSeed
    by_cases hc : off = 0x0DC
    · subst hc
      refine ⟨?_, ?_, ?_, ?_⟩
      · rw [hmoves, startsSince_snoc]
        exact h.gemmCt
      · rw [hmoves, lastSeed_snoc]
        exact h.seed
      · rw [hmoves, calsSince_snoc]
        exact h.calCt
      · rw [hmoves, lastCalSeed_snoc]
        rfl
    · refine hsame _ (storeWord_counters k s.twin v ho hc) ?_ ?_ (calsSince_snoc ..) ?_
      · exact (startsSince_snoc ..).trans (if_neg ho)
      · exact (lastSeed_snoc ..).trans (if_neg ho)
      · exact (lastCalSeed_snoc ..).trans (if_neg hc)
  | reset =>
    have hmoves : (s.step k .reset).moves = s.moves ++ [.reset] := rfl
    refine ⟨?_, ?_, ?_, ?_⟩ <;> rw [hmoves]
    · rw [startsSince_snoc]
      rfl
    · rw [lastSeed_snoc]
      rfl
    · rw [calsSince_snoc]
      rfl
    · rw [lastCalSeed_snoc]
      rfl
  | copy c =>
    exact hsame _ (copyMallocs_counters s.twin c) (startsSince_snoc ..) (lastSeed_snoc ..)
      (calsSince_snoc ..) (lastCalSeed_snoc ..)
  | finish =>
    exact hsame _ (gemmEnd_counters s.twin) (startsSince_snoc ..) (lastSeed_snoc ..)
      (calsSince_snoc ..) (lastCalSeed_snoc ..)
  | latch off =>
    exact hsame _ (read32_counters s.twin off) (startsSince_snoc ..) (lastSeed_snoc ..)
      (calsSince_snoc ..) (lastCalSeed_snoc ..)
  | age steps =>
    exact hsame _ (age_counters k s.twin steps) (startsSince_snoc ..) (lastSeed_snoc ..)
      (calsSince_snoc ..) (lastCalSeed_snoc ..)
  | accept | calBegin | pass | calNow =>
    exact hsame _ ⟨rfl, rfl, rfl, rfl⟩ (startsSince_snoc ..) (lastSeed_snoc ..)
      (calsSince_snoc ..) (lastCalSeed_snoc ..)

/-! ## The protocol -/

/-- The shape of the calibration that `PTA_CAL_CFG` asks for. -/
def calCfgOf (r : Regs) : CalCfg :=
  { ampLog2 := r.calCfg &&& 0xF
    repsLog2 := (r.calCfg >>> 4) &&& 0xF
    passes := if (r.calCfg >>> 8) &&& 0x3 = 0 then 1 else (r.calCfg >>> 8) &&& 0x3 }

/-- What the protocol says of one move, from the history before it. -/
def SeedRule (k : TileKernel Dev) (s : History Dev P) : Move P → Prop
  -- the GEMM runs on the registers as they stand now and the seed of its index
  | .start c =>
      ∃ sats sums,
        k.gemm
            { cfgFromRegs s.twin.regs with
              seed := gemmSeed (lastSeed s.moves) (BitVec.ofNat 32 (startsSince s.moves)) }
            s.twin.build.tile s.twin.dev c.bank c.M c.N c.K (operandA s.twin c) (c.B.getD []) =
          ((s.step k (.start c)).twin.dev, some (sats, sums)) ∧
        (s.step k (.start c)).twin.cur = c ∧ (s.step k (.start c)).twin.curSats = sats ∧
        ((s.step k (.start c)).twin.curC, (s.step k (.start c)).twin.curClips) = staged c sums
  | .refuse c =>
      ∃ heap, (s.step k (.refuse c)).twin =
        { s.twin with
          q := s.twin.q.tail
          heldValid := false
          regs := s.twin.regs.raiseIrq irqErr
          heap := heap }
  | .calBegin =>
      (s.step k .calBegin).twin.regs.gemmCt = s.twin.regs.gemmCt ∧
      (s.step k .calBegin).twin.dev =
        (k.calBank (cfgFromRegs s.twin.regs) s.twin.build.tile s.twin.dev
          ((s.twin.regs.calCfg >>> 10) &&& 1).toNat
          (calSeedOf (lastCalSeed s.moves) (BitVec.ofNat 32 (calsSince s.moves)))
          (calCfgOf s.twin.regs)).1
  | .calEnd refused =>
      (s.step k (.calEnd refused)).twin.regs.gemmCt = s.twin.regs.gemmCt
  | _ => True

theorem Counted.seedRule (hk : k.RefusesCleanly) {s : History Dev P} (h : Counted s) {m : Move P}
    (hm : m.Ready k s.twin) : SeedRule k s m := by
  cases m with
  | start c =>
    obtain ⟨-, -, sats, sums, dev, hcall, heq⟩ := gemmBegin_started hm.2.2.2 hm.1
    have htwin : (s.step k (.start c)).twin =
        (gemmBegin k { s.twin with q := s.twin.q.tail } c).1 := rfl
    rw [heq] at htwin
    refine ⟨sats, sums, ?_, ?_, ?_, ?_⟩
    · rw [htwin, ← h.seed, ← h.gemmCt]
      exact hcall
    · rw [htwin]
    · rw [htwin]
    · rw [htwin]
  | refuse c =>
    obtain ⟨heap, heq⟩ := gemmBegin_refused hk hm.2.2.2
    refine ⟨heap, ?_⟩
    show (gemmBegin k { s.twin with q := s.twin.q.tail } c).1 = _
    rw [heq]
  | calBegin =>
    refine ⟨rfl, ?_⟩
    rw [← h.calSeed, ← h.calCt]
    rfl
  | calEnd refused => exact (calEnd_counters s.twin).1
  | copy | accept | finish | pass | store | calNow | latch | age | reset => trivial

/-- The counter-seed protocol. Along every run of the twin, `PTA_GEMM_CT` is the number of GEMMs
started since the last write of `PTA_SEED` or reset, and every start, refusal and calibration follows
`SeedRule`. -/
theorem counter_seed_protocol (k : TileKernel Dev) (hk : k.RefusesCleanly) (b : Build) (dev : Dev)
    (heap : ℕ → Bool) (os : List (Op P)) :
    let new : History Dev P := History.new b dev heap
    Counted (after (History.step k) new (opsMoves k new.twin os)) ∧
      Along (History.step k) (fun s m => Counted s ∧ SeedRule k s m) new
        (opsMoves k new.twin os) := by
  intro new
  obtain ⟨h, halong⟩ := ops_invariant (k := k) (fun s m hs hm => Counted.step hs hm)
    (Counted.new b dev heap) os
  exact ⟨h, halong.mono fun s m hm => ⟨hm.1, hm.1.seedRule hk hm.2⟩⟩

/-- A seed, a GEMM behind a calibration, and a second seed while it waits: the GEMM takes index 0. -/
theorem counter_seed_protocol_reseeded :
    let new : History Unit ℕ := History.new ⟨4, 4, 8, 32, 2, 0⟩ () (fun _ => true)
    let os : List (Op ℕ) := [.write32 0x050 7, .write32 0x040 3,
      .submit { M := 1, N := 1, K := 1, A := some [2], B := some [3], C := some 0 },
      .write32 0x050 9, .run 100]
    (opsApply exactKernel new.twin os).2.length = 1 ∧
      Counted (after (History.step exactKernel) new (opsMoves exactKernel new.twin os)) ∧
      Along (History.step exactKernel) (fun s m => Counted s ∧ SeedRule exactKernel s m) new
        (opsMoves exactKernel new.twin os) :=
  ⟨by decide +kernel, counter_seed_protocol exactKernel exactKernel_refusesCleanly
    ⟨4, 4, 8, 32, 2, 0⟩ () (fun _ => true) _⟩

end Grxcp.PtaTwin
