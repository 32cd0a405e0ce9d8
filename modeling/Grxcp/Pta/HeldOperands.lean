import Grxcp.Pta.TwinRuns

/-!
# Held operands are the next command's or nobody's

A command that takes its activations from the held output runs only right behind the command that
held them: a `HOLD` command that ended done, with no other turn at the tile and no reset in between.
-/

namespace Grxcp.PtaTwin

open Runs

variable {Dev P : Type}

/-- A turn at the tile, or a reset: what the held output does not outlive. -/
def Move.clears : Move P → Bool
  | .start _ | .refuse _ | .reset => true
  | _ => false

/-- `c` has the last turn at the tile, and nothing has been reset since. -/
def LastTurn (ms : List (Move P)) (c : Cmd P) : Prop :=
  ∃ pre mid, ms = pre ++ .start c :: mid ∧ ∀ m ∈ mid, m.clears = false

theorem LastTurn.snoc {ms : List (Move P)} {c : Cmd P} (h : LastTurn ms c) {m : Move P}
    (hm : m.clears = false) : LastTurn (ms ++ [m]) c := by
  obtain ⟨pre, mid, rfl, hmid⟩ := h
  refine ⟨pre, mid ++ [m], by simp, ?_⟩
  intro x hx
  rcases List.mem_append.mp hx with hx | hx
  · exact hmid x hx
  · rw [List.mem_singleton.mp hx]
    exact hm

variable {k : TileKernel Dev} {t : Twin Dev P}

/-- The held output, as the twin keeps it. -/
structure SameHeld (t t' : Twin Dev P) : Prop where
  held : t'.held = t.held
  heldM : t'.heldM = t.heldM
  heldN : t'.heldN = t.heldN
  heldValid : t'.heldValid = t.heldValid

theorem copyMallocs_sameHeld (t : Twin Dev P) (c : Cmd P) : SameHeld t (copyMallocs t c).2 := by
  unfold copyMallocs Twin.malloc
  dsimp only
  repeat' split
  all_goals exact ⟨rfl, rfl, rfl, rfl⟩

theorem storeWord_sameHeld (k : TileKernel Dev) (t : Twin Dev P) (off v : U32) :
    SameHeld t (storeWord k t off v) := by
  unfold storeWord storeCtrl
  split
  · dsimp only
    repeat' split
    all_goals exact ⟨rfl, rfl, rfl, rfl⟩
  unfold write32 sendAffine
  dsimp only
  repeat' split
  all_goals exact ⟨rfl, rfl, rfl, rfl⟩

theorem read32_sameHeld (t : Twin Dev P) (off : U32) : SameHeld t (read32 t off).1 := by
  refine ⟨?_, ?_, ?_, ?_⟩ <;>
  · unfold read32
    dsimp only
    repeat' split
    all_goals rfl

theorem age_sameHeld (k : TileKernel Dev) (t : Twin Dev P) (steps : U64) :
    SameHeld t (age k t steps).2 := by
  unfold age
  repeat' split
  all_goals exact ⟨rfl, rfl, rfl, rfl⟩

/-- Only a turn at the tile, an end and a reset touch what is held. -/
theorem apply_sameHeld {m : Move P} (hm : m.clears = false) (hf : m ≠ .finish) :
    SameHeld t (m.apply k t).1 := by
  cases m with
  | copy c => exact copyMallocs_sameHeld t c
  | store off v => exact storeWord_sameHeld k t off v
  | latch off => exact read32_sameHeld t off
  | age steps => exact age_sameHeld k t steps
  | accept | calBegin | calEnd | pass | calNow => exact ⟨rfl, rfl, rfl, rfl⟩
  | start | refuse | reset => cases hm
  | finish => exact absurd rfl hf

/-- What holds the tile and what is held, at every moment of a run. -/
structure Holds (s : History Dev P) : Prop where
  /-- The command on the tile had the last turn, and nothing is held while it runs. -/
  running : s.twin.state = .gemm → LastTurn s.moves s.twin.cur ∧ s.twin.heldValid = false
  /-- The last command that ended was a `HOLD` command, it had the last turn, and what is held is what
  it put out. -/
  held : s.twin.heldValid = true → ∃ c sats clips,
    LastTurn s.moves c ∧ s.ended.getLast? = some ⟨c, .done s.twin.held sats clips⟩ ∧
      c.flags &&& cmdHold ≠ 0 ∧ s.twin.heldM = c.M ∧ s.twin.heldN = c.N

theorem Holds.new (b : Build) (dev : Dev) (heap : ℕ → Bool) :
    Holds (History.new b dev heap : History Dev P) where
  running h := by cases h
  held h := by cases h

/-- A move that is neither a turn, an end nor a reset. -/
theorem Holds.same {s : History Dev P} (h : Holds s) {m : Move P} (hm : m.clears = false)
    (hf : m ≠ .finish) (he : (m.apply k s.twin).2 = [])
    (hs : (m.apply k s.twin).1.state = .gemm →
      s.twin.state = .gemm ∧ (m.apply k s.twin).1.cur = s.twin.cur) : Holds (s.step k m) := by
  have hheld := apply_sameHeld (k := k) (t := s.twin) hm hf
  refine ⟨fun hg => ?_, fun hv => ?_⟩
  · obtain ⟨hg, hc⟩ := hs hg
    obtain ⟨hlast, hnone⟩ := h.running hg
    show LastTurn (s.moves ++ [m]) (m.apply k s.twin).1.cur ∧ (m.apply k s.twin).1.heldValid = false
    rw [hc, hheld.heldValid]
    exact ⟨hlast.snoc hm, hnone⟩
  · obtain ⟨c, sats, clips, hlast, hend, hhold, hM, hN⟩ := h.held (hheld.heldValid.symm.trans hv)
    refine ⟨c, sats, clips, hlast.snoc hm, ?_, hhold, hheld.heldM.trans hM, hheld.heldN.trans hN⟩
    show (s.ended ++ (m.apply k s.twin).2).getLast? = some ⟨c, .done (m.apply k s.twin).1.held _ _⟩
    rw [he, List.append_nil, hheld.held]
    exact hend

theorem Holds.step {s : History Dev P} (h : Holds s) {m : Move P} (hm : m.Ready k s.twin) :
    Holds (s.step k m) := by
  by_cases hquiet : m.quiet = true
  · obtain ⟨hq, he⟩ := quiet_sameQueue (k := k) (t := s.twin) hquiet
    refine h.same ?_ ?_ he fun hg => ⟨hq.state ▸ hg, hq.cur⟩
    · cases m <;> first | rfl | cases hquiet
    · rintro rfl
      cases hquiet
  cases m with
  | copy | pass | store | latch | age => exact absurd rfl hquiet
  | accept c => exact h.same rfl (by simp) rfl fun hg => ⟨hg, rfl⟩
  | calNow => exact h.same rfl (by simp) rfl fun hg => ⟨hg, rfl⟩
  | calBegin => exact h.same rfl (by simp) rfl fun hg => absurd hg (by simp [Move.apply])
  | calEnd r => exact h.same rfl (by simp) rfl fun hg => absurd hg (by simp [Move.apply])
  | start c =>
    obtain ⟨-, -, sats, sums, dev, -, heq⟩ := gemmBegin_started hm.2.2.2 hm.1
    have htwin : (s.step k (.start c)).twin =
        (gemmBegin k { s.twin with q := s.twin.q.tail } c).1 := rfl
    rw [heq] at htwin
    refine ⟨fun _ => ?_, fun hv => ?_⟩
    · rw [htwin]
      exact ⟨⟨s.moves, [], rfl, by simp⟩, rfl⟩
    · rw [htwin] at hv
      cases hv
  | refuse c =>
    obtain ⟨heap, dev, heq⟩ := gemmBegin_refused_any hm.2.2.2
    have htwin : (s.step k (.refuse c)).twin =
        (gemmBegin k { s.twin with q := s.twin.q.tail } c).1 := rfl
    rw [heq] at htwin
    refine ⟨fun hg => ?_, fun hv => ?_⟩
    · rw [htwin] at hg
      exact absurd (hm.1.symm.trans hg) (by simp)
    · rw [htwin] at hv
      cases hv
  | finish =>
    obtain ⟨hlast, hnone⟩ := h.running hm.1
    refine ⟨fun hg => absurd hg (by simp [History.step, Move.apply]), fun hv => ?_⟩
    have hv' : (gemmEnd s.twin).1.heldValid = true := hv
    show ∃ c sats clips, LastTurn (s.moves ++ [.finish]) c ∧
      (s.ended ++ (gemmEnd s.twin).2).getLast? = some ⟨c, .done (gemmEnd s.twin).1.held sats clips⟩ ∧
        c.flags &&& cmdHold ≠ 0 ∧ (gemmEnd s.twin).1.heldM = c.M ∧ (gemmEnd s.twin).1.heldN = c.N
    unfold gemmEnd at hv' ⊢
    by_cases hf : s.twin.cur.flags &&& cmdHold ≠ 0
    · rw [if_pos hf]
      exact ⟨s.twin.cur, s.twin.curSats, s.twin.curClips, hlast.snoc rfl, by simp, hf, rfl, rfl⟩
    · rw [if_neg hf] at hv'
      exact absurd (hnone.symm.trans hv') (by simp)
  | reset =>
    refine ⟨fun hg => ?_, fun hv => ?_⟩
    · cases (show (PtaTwin.reset k s.twin).1.state = .gemm from hg)
    · cases (show (PtaTwin.reset k s.twin).1.heldValid = true from hv)

/-- What the held output is good for: a command that takes its activations from it runs only right
behind the command that held them, on the values that one put out, and every turn and reset clears
it. -/
def HeldRule (k : TileKernel Dev) (s : History Dev P) (m : Move P) : Prop :=
  (∀ c, m = .start c → c.flags &&& cmdFromHeld ≠ 0 → ∃ c' out sats' clips',
    LastTurn s.moves c' ∧ s.ended.getLast? = some ⟨c', .done out sats' clips'⟩ ∧
      c'.flags &&& cmdHold ≠ 0 ∧ c'.M = c.M ∧ c'.N = c.K ∧
      ∃ sats sums,
        k.gemm (startCfg s.twin.regs) s.twin.build.tile s.twin.dev c.bank c.M c.N c.K out
            (c.B.getD []) = ((s.step k m).twin.dev, some (sats, sums)) ∧
          (s.step k m).twin.cur = c ∧ (s.step k m).twin.curC = (staged c sums).1) ∧
  (m.clears = true → (s.step k m).twin.heldValid = false)

/-- A command on the held output that the stage does not refuse finds its own shape there. -/
theorem actRefused_fromHeld {c : Cmd P} (h : actRefused t c = false)
    (hf : c.flags &&& cmdFromHeld ≠ 0) :
    t.heldValid = true ∧ t.heldM = c.M ∧ t.heldN = c.K := by
  have hne : c.flags ≠ 0 := by
    rintro h0
    simp [h0] at hf
  unfold actRefused at h
  rw [if_neg hne] at h
  repeat' split at h
  all_goals cases h
  rename_i hlast
  simp only [hf, ne_eq, not_false_eq_true, true_and, not_or, Bool.not_eq_true',
    Bool.not_eq_false, not_not] at hlast
  exact hlast

theorem Holds.heldRule {s : History Dev P} (h : Holds s) {m : Move P} (hm : m.Ready k s.twin) :
    HeldRule k s m := by
  constructor
  · rintro c rfl hf
    obtain ⟨hact, -, sats, sums, dev, hcall, heq⟩ := gemmBegin_started hm.2.2.2 hm.1
    have htwin : (s.step k (.start c)).twin =
        (gemmBegin k { s.twin with q := s.twin.q.tail } c).1 := rfl
    rw [heq] at htwin
    obtain ⟨hv, hM, hN⟩ := actRefused_fromHeld hact hf
    obtain ⟨c', sats', clips', hlast, hend, hhold, hM', hN'⟩ := h.held hv
    refine ⟨c', s.twin.held, sats', clips', hlast, hend, hhold, hM'.symm.trans hM,
      hN'.symm.trans hN, sats, sums, ?_, ?_, ?_⟩
    · rw [htwin]
      unfold tileCall operandA at hcall
      rw [if_pos hf] at hcall
      exact hcall
    · rw [htwin]
    · rw [htwin]
  · intro hc
    cases m with
    | start c =>
      obtain ⟨-, -, sats, sums, dev, -, heq⟩ := gemmBegin_started hm.2.2.2 hm.1
      show (gemmBegin k { s.twin with q := s.twin.q.tail } c).1.heldValid = false
      rw [heq]
    | refuse c =>
      obtain ⟨heap, dev, heq⟩ := gemmBegin_refused_any hm.2.2.2
      show (gemmBegin k { s.twin with q := s.twin.q.tail } c).1.heldValid = false
      rw [heq]
    | reset => rfl
    | copy | accept | finish | calBegin | calEnd | pass | store | calNow | latch | age => cases hc

/-- Held operands never leak: every start, refusal and reset of every run of the twin follows
`HeldRule`. -/
theorem held_operands (k : TileKernel Dev) (b : Build) (dev : Dev) (heap : ℕ → Bool)
    (os : List (Op P)) :
    let new : History Dev P := History.new b dev heap
    Along (History.step k) (HeldRule k) new (opsMoves k new.twin os) := by
  intro new
  obtain ⟨-, halong⟩ := ops_invariant (k := k) (fun s m hs hm => Holds.step hs hm)
    (Holds.new b dev heap) os
  exact halong.mono fun s m hm => hm.1.heldRule hm.2

end Grxcp.PtaTwin
