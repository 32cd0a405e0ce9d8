import Grxcp.Pta.TwinMoves

/-!
# A command's turn at the tile

`gemm_begin` either refuses the command, and then nothing is counted, or runs the model on the
configuration as the registers hold it and the seed of the next index. These lemmas say what each
leaves behind; the invariants of the twin use them instead of `gemm_arith`'s control flow.
-/

namespace Grxcp.PtaTwin

variable {Dev P : Type}

/-- The activations of a command: the held ones, or its own. -/
def operandA (t : Twin Dev P) (c : Cmd P) : List ℤ :=
  if c.flags &&& cmdFromHeld ≠ 0 then t.held else c.A.getD []

/-- What a start samples: the registers as they stand, and the seed of the next index. -/
def startCfg (r : Regs) : Cfg :=
  { cfgFromRegs r with seed := gemmSeed r.seed r.gemmCt }

/-- The outputs of a command and the number the stage clamped, from the tile's sums. -/
def staged (c : Cmd P) (sums : List ℤ) : List ℤ × ℤ :=
  if c.flags &&& cmdAct ≠ 0 then actStage c sums else (sums, 0)

/-- A refusal of the core's own: a bit the tile does not build, a shift it cannot hold, or a bank it
does not have. -/
def coreRefused (r : Regs) (c : Cmd P) : Prop :=
  ((cfgFromRegs r).impair ≠ 0 ∧
      ((cfgFromRegs r).impair &&& ~~~built ≠ 0 ∨ 40 < (cfgFromRegs r).adcShift)) ∨
    c.bank < 0 ∨ (banks : ℤ) ≤ c.bank

/-- The `pta_gemm` call of a command on a twin. -/
def tileCall (k : TileKernel Dev) (t : Twin Dev P) (c : Cmd P) : Dev × Option (ℤ × List ℤ) :=
  k.gemm (startCfg t.regs) t.build.tile t.dev c.bank c.M c.N c.K (operandA t c) (c.B.getD [])

/-- The assumption on the vendored model: a `pta_gemm` that refuses leaves the device as it was. -/
def TileKernel.RefusesCleanly (k : TileKernel Dev) : Prop :=
  ∀ cfg tile dev bank M N K A B,
    (k.gemm cfg tile dev bank M N K A B).2 = none → (k.gemm cfg tile dev bank M N K A B).1 = dev

/-- A tile with nothing impaired: the exact product, row by row. -/
def exactKernel : TileKernel Unit where
  gemm _ _ dev _ M N K A B :=
    (dev, some (0, (List.range (M * N).toNat).map fun i =>
      ((List.range K.toNat).map fun j =>
        A.getD (i / N.toNat * K.toNat + j) 0 * B.getD (j * N.toNat + i % N.toNat) 0).sum))
  calBank _ _ dev _ _ _ := (dev, some ⟨0, 0, false, 0⟩)
  modelReset dev _ := dev
  calReset dev := dev
  columnCal dev _ _ _ := dev
  driftAge _ dev _ := dev

theorem exactKernel_refusesCleanly : exactKernel.RefusesCleanly :=
  fun _ _ _ _ _ _ _ _ _ _ => rfl

variable {k : TileKernel Dev} {t t' : Twin Dev P} {c : Cmd P}

instance (r : Regs) (c : Cmd P) : Decidable (coreRefused r c) :=
  inferInstanceAs (Decidable (_ ∨ _))

/-- `gemm_arith` as its refusals, in the order the source makes them, and one call of the model. -/
theorem gemmArith_eq (k : TileKernel Dev) (t : Twin Dev P) (c : Cmd P) :
    gemmArith k t c =
      if actRefused t c then (t, none)
      else if coreRefused t.regs c then (t, none)
      else if t.heap 0 = false then ({ t with heap := fun n => t.heap (n + 1) }, none)
      else
        ({ t with dev := (tileCall k t c).1, heap := fun n => t.heap (n + 1) },
          (tileCall k t c).2.map fun r => ⟨(staged c r.2).1, r.1, (staged c r.2).2⟩) := by
  unfold gemmArith Twin.malloc
  dsimp only
  by_cases hact : actRefused t c = true
  · rw [if_pos hact, if_pos hact]
  rw [if_neg hact, if_neg hact]
  by_cases hcore : coreRefused t.regs c
  · rw [if_pos hcore]
    rcases hcore with himp | hbank
    · rw [if_pos himp]
    · rw [if_pos hbank, ite_self]
  rw [if_neg hcore, if_neg fun h => hcore (.inl h), if_neg fun h => hcore (.inr h)]
  by_cases hheap : t.heap 0 = false
  · rw [if_pos hheap, if_pos (by simp [hheap])]
  rw [if_neg hheap, if_neg (by simpa using hheap)]
  unfold tileCall operandA startCfg
  generalize k.gemm _ _ _ _ _ _ _ _ _ = r
  rcases r with ⟨dev, _ | ⟨sats, sums⟩⟩
  · rfl
  dsimp only [Option.map]
  unfold staged
  split <;> rfl

/-- Arithmetic that succeeds: nothing refused the command, and the model ran once. -/
theorem gemmArith_some {r : Arith} (h : gemmArith k t c = (t', some r)) :
    actRefused t c = false ∧ ¬coreRefused t.regs c ∧ t.heap 0 = true ∧
      ∃ sums, tileCall k t c = (t'.dev, some (r.sats, sums)) ∧ staged c sums = (r.out, r.clips) ∧
        t' = { t with dev := t'.dev, heap := fun n => t.heap (n + 1) } := by
  rw [gemmArith_eq] at h
  split at h
  · cases h
  next hact =>
  split at h
  · cases h
  next hcore =>
  split at h
  · cases h
  next hheap =>
  obtain ⟨rfl, hr⟩ := Prod.mk.inj h
  obtain ⟨⟨sats, sums⟩, hcall, rfl⟩ := Option.map_eq_some_iff.mp hr
  exact ⟨by simpa using hact, hcore, by simpa using hheap, sums, Prod.ext rfl hcall, rfl, rfl⟩

/-- Arithmetic that refuses: the model was not called, or it refused. -/
theorem gemmArith_none (h : gemmArith k t c = (t', none)) :
    (t' = t ∨ t' = { t with heap := fun n => t.heap (n + 1) }) ∨
      (tileCall k t c = (t'.dev, none) ∧
        t' = { t with dev := t'.dev, heap := fun n => t.heap (n + 1) }) := by
  rw [gemmArith_eq] at h
  split at h
  · exact .inl (.inl (Prod.mk.inj h).1.symm)
  split at h
  · exact .inl (.inl (Prod.mk.inj h).1.symm)
  split at h
  · exact .inl (.inr (Prod.mk.inj h).1.symm)
  obtain ⟨rfl, hr⟩ := Prod.mk.inj h
  exact .inr ⟨Prod.ext rfl (Option.map_eq_none_iff.mp hr), rfl⟩

/-- Two commands whose refusals, call and stage are the same have the same arithmetic. -/
theorem gemmArith_agree {u : Twin Dev P} {c' : Cmd P} (hact : actRefused t c = actRefused u c')
    (hcore : coreRefused t.regs c ↔ coreRefused u.regs c') (hheap : t.heap 0 = u.heap 0)
    (hcall : tileCall k t c = tileCall k u c') (hst : staged c = staged c') :
    (gemmArith k t c).2 = (gemmArith k u c').2 := by
  rw [gemmArith_eq, gemmArith_eq, hact, hheap, hcall, hst]
  by_cases ha : actRefused u c' = true
  · rw [if_pos ha, if_pos ha]
  rw [if_neg ha, if_neg ha]
  by_cases hc : coreRefused u.regs c'
  · rw [if_pos hc, if_pos (hcore.mpr hc)]
  rw [if_neg hc, if_neg fun h => hc (hcore.mp h)]
  by_cases hh : u.heap 0 = false
  · rw [if_pos hh, if_pos hh]
  rw [if_neg hh, if_neg hh]

/-- A command the tile takes. -/
theorem gemmBegin_started (hs : (gemmBegin k t c).1.state = .gemm) (hi : t.state = .idle) :
    actRefused t c = false ∧ ¬coreRefused t.regs c ∧
      ∃ sats sums dev, tileCall k t c = (dev, some (sats, sums)) ∧
        gemmBegin k t c =
          ({ t with
              dev := dev
              heap := fun n => t.heap (n + 1)
              heldValid := false
              regs := { t.regs with
                gemmCt := t.regs.gemmCt + 1
                satCt := BitVec.ofInt 64 sats
                actClipCt := BitVec.ofInt 32 (staged c sums).2
                shotCt := t.regs.shotCt + shotsOf t.build c
                wloadCt := t.regs.wloadCt + tilesOf t.build c }
              curClips := (staged c sums).2
              cur := c
              curC := (staged c sums).1
              curSats := sats
              state := .gemm
              left := atLeastOne (tilesOf t.build c * t.regs.tw.zeroExtend 64 +
                shotsOf t.build c * t.regs.ts.zeroExtend 64) }, []) := by
  unfold gemmBegin at hs ⊢
  rcases ha : gemmArith k t c with ⟨u, r⟩
  rw [ha] at hs
  cases r with
  | none =>
    have hu := gemmArith_sameQueue k t c
    rw [ha] at hu
    have : u.state = .gemm := hs
    rw [hu.state, hi] at this
    cases this
  | some r =>
    obtain ⟨hact, hcore, -, sums, hcall, hst, hu⟩ := gemmArith_some ha
    refine ⟨hact, hcore, r.sats, sums, u.dev, hcall, ?_⟩
    rw [hst, hu]

/-- A command that is refused: the error interrupt, and nothing is held any more. -/
theorem gemmBegin_refused (hk : k.RefusesCleanly) (hs : (gemmBegin k t c).1.state = .idle) :
    ∃ heap, gemmBegin k t c =
      ({ t with heap := heap, heldValid := false, regs := t.regs.raiseIrq irqErr },
        [⟨c, .refused⟩]) := by
  unfold gemmBegin at hs ⊢
  rcases ha : gemmArith k t c with ⟨u, r⟩
  rw [ha] at hs
  cases r with
  | some r => cases hs
  | none =>
    obtain (rfl | rfl) | ⟨hcall, hu⟩ := gemmArith_none ha
    · exact ⟨_, rfl⟩
    · exact ⟨_, rfl⟩
    · have hd : u.dev = t.dev := by
        have := hk (startCfg t.regs) t.build.tile t.dev c.bank c.M c.N c.K (operandA t c)
          (c.B.getD [])
        unfold tileCall at hcall
        rw [hcall] at this
        exact this rfl
      rw [hd] at hu
      subst hu
      exact ⟨_, rfl⟩

/-- The same without the assumption: all but the device. -/
theorem gemmBegin_refused_any (hs : (gemmBegin k t c).1.state = .idle) :
    ∃ heap dev, gemmBegin k t c =
      ({ t with dev := dev, heap := heap, heldValid := false, regs := t.regs.raiseIrq irqErr },
        [⟨c, .refused⟩]) := by
  unfold gemmBegin at hs ⊢
  rcases ha : gemmArith k t c with ⟨u, r⟩
  rw [ha] at hs
  cases r with
  | some r => cases hs
  | none =>
    obtain (rfl | rfl) | ⟨-, hu⟩ := gemmArith_none ha
    · exact ⟨_, _, rfl⟩
    · exact ⟨_, _, rfl⟩
    · rw [hu]
      exact ⟨_, _, rfl⟩

end Grxcp.PtaTwin
