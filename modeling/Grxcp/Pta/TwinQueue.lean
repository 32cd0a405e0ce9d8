import Grxcp.Pta.Twin

/-!
# What the twin accepted, it ends

`accepted t` lists the commands the twin has taken and not ended, oldest first. Every operation of
the twin moves commands from the front of that list to its endings, in order, and adds at most the
one a `submit` brings. This holds for any tile model: the arithmetic is never looked at.
-/

namespace Grxcp.PtaTwin

variable {Dev P : Type}

/-- The commands accepted and not yet ended, in the order they will end. -/
def accepted (t : Twin Dev P) : List (Cmd P) :=
  (if t.state = .gemm then [t.cur] else []) ++ t.q

/-- The commands of a list of endings. -/
def endedCmds (es : List (Ending P)) : List (Cmd P) :=
  es.map (·.cmd)

@[simp] theorem endedCmds_nil : endedCmds ([] : List (Ending P)) = [] := rfl

@[simp] theorem endedCmds_append (es es' : List (Ending P)) :
    endedCmds (es ++ es') = endedCmds es ++ endedCmds es' :=
  List.map_append

/-- The counter the tests poll is the length of the list. -/
theorem pending_eq_length (t : Twin Dev P) : pending t = (accepted t).length := by
  unfold pending accepted
  split <;> simp [Nat.add_comm]

theorem accepted_of_not_gemm {t : Twin Dev P} (h : t.state ≠ .gemm) : accepted t = t.q := by
  simp [accepted, h]

theorem accepted_of_gemm {t : Twin Dev P} (h : t.state = .gemm) : accepted t = t.cur :: t.q := by
  simp [accepted, h]

/-- The commands of two twins that agree on what `accepted` looks at. -/
theorem accepted_congr {t t' : Twin Dev P} (hs : t'.state = t.state) (hc : t'.cur = t.cur)
    (hq : t'.q = t.q) : accepted t' = accepted t := by
  simp [accepted, hs, hc, hq]

/-! ## A GEMM -/

/-- The parts of the twin that the arithmetic leaves alone. -/
structure SameQueue (t t' : Twin Dev P) : Prop where
  state : t'.state = t.state
  cur : t'.cur = t.cur
  q : t'.q = t.q
  calPending : t'.calPending = t.calPending

theorem SameQueue.refl (t : Twin Dev P) : SameQueue t t :=
  ⟨rfl, rfl, rfl, rfl⟩

theorem SameQueue.accepted {t t' : Twin Dev P} (h : SameQueue t t') :
    PtaTwin.accepted t' = PtaTwin.accepted t :=
  accepted_congr h.state h.cur h.q

theorem gemmArith_sameQueue (k : TileKernel Dev) (t : Twin Dev P) (c : Cmd P) :
    SameQueue t (gemmArith k t c).1 := by
  unfold gemmArith Twin.malloc
  dsimp only
  repeat' split
  all_goals exact ⟨rfl, rfl, rfl, rfl⟩

/-- What starting a command on an idle tile can do: refuse it and stay idle, or hold the tile. -/
theorem gemmBegin_cases (k : TileKernel Dev) {t : Twin Dev P} (c : Cmd P) (h : t.state = .idle) :
    ((gemmBegin k t c).2 = [⟨c, .refused⟩] ∧ (gemmBegin k t c).1.state = .idle ∧
        (gemmBegin k t c).1.q = t.q ∧ (gemmBegin k t c).1.calPending = t.calPending) ∨
      ((gemmBegin k t c).2 = [] ∧ (gemmBegin k t c).1.state = .gemm ∧
        (gemmBegin k t c).1.cur = c ∧ (gemmBegin k t c).1.q = t.q ∧
        (gemmBegin k t c).1.calPending = t.calPending) := by
  have hs := gemmArith_sameQueue k t c
  unfold gemmBegin
  dsimp only
  split
  · next t' heq =>
    rw [heq] at hs
    exact .inl ⟨rfl, hs.state.trans h, hs.q, hs.calPending⟩
  · next t' r heq =>
    rw [heq] at hs
    exact .inr ⟨rfl, rfl, rfl, hs.q, hs.calPending⟩

theorem gemmBegin_conserves (k : TileKernel Dev) {t : Twin Dev P} (c : Cmd P)
    (h : t.state = .idle) :
    c :: t.q = endedCmds (gemmBegin k t c).2 ++ accepted (gemmBegin k t c).1 := by
  obtain ⟨he, hs, hq, -⟩ | ⟨he, hs, hc, hq, -⟩ := gemmBegin_cases k c h
  · rw [he, accepted_of_not_gemm (by simp [hs]), hq]
    rfl
  · rw [he, accepted_of_gemm hs, hc, hq]
    rfl

theorem gemmEnd_conserves {t : Twin Dev P} (h : t.state = .gemm) :
    accepted t = endedCmds (gemmEnd t).2 ++ accepted (gemmEnd t).1 := by
  rw [accepted_of_gemm h]
  unfold gemmEnd
  dsimp only
  split <;> rfl

@[simp] theorem gemmEnd_state (t : Twin Dev P) : (gemmEnd t).1.state = .idle := by
  unfold gemmEnd
  dsimp only

@[simp] theorem gemmEnd_q (t : Twin Dev P) : (gemmEnd t).1.q = t.q := by
  unfold gemmEnd
  dsimp only
  split <;> rfl

@[simp] theorem gemmEnd_calPending (t : Twin Dev P) :
    (gemmEnd t).1.calPending = t.calPending := by
  unfold gemmEnd
  dsimp only
  split <;> rfl

/-! ## A calibration -/

@[simp] theorem calBegin_state (k : TileKernel Dev) (t : Twin Dev P) :
    (calBegin k t).state = .cal := rfl

@[simp] theorem calBegin_q (k : TileKernel Dev) (t : Twin Dev P) : (calBegin k t).q = t.q := rfl

@[simp] theorem calBegin_calPending (k : TileKernel Dev) (t : Twin Dev P) :
    (calBegin k t).calPending = t.calPending := rfl

@[simp] theorem calEnd_state (t : Twin Dev P) : (calEnd t).state = .idle := rfl

@[simp] theorem calEnd_q (t : Twin Dev P) : (calEnd t).q = t.q := rfl

@[simp] theorem calEnd_calPending (t : Twin Dev P) : (calEnd t).calPending = t.calPending := rfl

/-! ## The tile's next holder -/

theorem startQueued_conserves (k : TileKernel Dev) (q : List (Cmd P)) :
    ∀ t : Twin Dev P, t.state = .idle →
      q = endedCmds (startQueued k q t).2 ++ accepted (startQueued k q t).1 := by
  induction q with
  | nil =>
    intro t h
    simp [startQueued, accepted, h]
  | cons c q ih =>
    intro t h
    have hb := gemmBegin_conserves k (t := { t with q := q }) c h
    simp only [startQueued]
    by_cases hi : (gemmBegin k { t with q := q } c).1.state = .idle
    · obtain ⟨he, -, hq, -⟩ | ⟨-, hs, -⟩ := gemmBegin_cases k (t := { t with q := q }) c h
      · rw [if_pos hi]
        simp only [endedCmds_append, he, List.append_assoc, ← ih _ hi]
        rfl
      · simp [hs] at hi
    · rw [if_neg hi]
      exact hb

/-- Whoever gets the tile next, the commands keep their order. -/
theorem startNext_conserves (k : TileKernel Dev) (t : Twin Dev P) :
    accepted t = endedCmds (startNext k t).2 ++ accepted (startNext k t).1 := by
  unfold startNext
  split
  · rfl
  · next h =>
    have hs : t.state = .idle := by simpa using h
    split
    · simp [accepted, hs]
    · rw [accepted_of_not_gemm (by simp [hs])]
      exact startQueued_conserves k t.q t hs

/-! ## Reset -/

theorem dropAll_conserves (t : Twin Dev P) :
    accepted t = endedCmds (dropAll t).2 ∧ accepted (dropAll t).1 = [] := by
  constructor
  · unfold dropAll accepted endedCmds
    by_cases h : t.state = .gemm <;> simp [h, Function.comp_def]
  · simp [dropAll, accepted]

/-- A reset ends every command there is. -/
theorem reset_conserves (k : TileKernel Dev) (t : Twin Dev P) :
    accepted t = endedCmds (reset k t).2 ∧ accepted (reset k t).1 = [] := by
  obtain ⟨h, h'⟩ := dropAll_conserves t
  exact ⟨h, h'⟩

/-! ## The data path -/

theorem copyMallocs_sameQueue (t : Twin Dev P) (c : Cmd P) :
    SameQueue t (copyMallocs t c).2 := by
  unfold copyMallocs Twin.malloc
  dsimp only
  repeat' split
  all_goals exact ⟨rfl, rfl, rfl, rfl⟩

/-- A refused submission changes nothing that waits or runs, and ends nothing. -/
theorem submit_refused {k : TileKernel Dev} {t : Twin Dev P} {c : Cmd P}
    (h : (submit k t c).1 = false) :
    (submit k t c).2.2 = [] ∧ SameQueue t (submit k t c).2.1 := by
  have hs := copyMallocs_sameQueue t c
  revert h
  unfold submit
  split
  · exact fun _ => ⟨rfl, .refl t⟩
  split
  · exact fun _ => ⟨rfl, .refl t⟩
  split
  · next heq =>
    rw [heq] at hs
    exact fun _ => ⟨rfl, hs⟩
  · split
    · exact fun h => absurd h (by simp)
    · exact fun h => absurd h (by simp)

/-- An accepted submission goes behind every command there is. -/
theorem submit_conserves {k : TileKernel Dev} {t : Twin Dev P} {c : Cmd P}
    (h : (submit k t c).1 = true) :
    accepted t ++ [copyCmd c] = endedCmds (submit k t c).2.2 ++ accepted (submit k t c).2.1 := by
  have hs := copyMallocs_sameQueue t c
  revert h
  unfold submit
  split
  · exact fun h => absurd h (by simp)
  split
  · exact fun h => absurd h (by simp)
  split
  · exact fun h => absurd h (by simp)
  · next t' heq =>
    rw [heq] at hs
    intro _
    by_cases hi : t'.state = .idle ∧ !t'.calPending ∧ t'.q = []
    · rw [if_pos hi]
      dsimp only
      rw [← gemmBegin_conserves k (copyCmd c) hi.1, ← hs.accepted,
        accepted_of_not_gemm (by simp [hi.1]), hi.2.2]
      rfl
    · rw [if_neg hi]
      dsimp only
      rw [← hs.accepted]
      simp [accepted]

/-! ## Time -/

theorem runLoop_conserves (k : TileKernel Dev) (fuel : ℕ) :
    ∀ (t : Twin Dev P) (cycles : U64),
      accepted t = endedCmds (runLoop k fuel t cycles).2.1 ++
        accepted (runLoop k fuel t cycles).1 := by
  induction fuel with
  | zero => exact fun _ _ => rfl
  | succ fuel ih =>
    intro t cycles
    unfold runLoop
    by_cases hc : cycles = 0
    · rw [if_pos hc]
      rfl
    rw [if_neg hc]
    by_cases hi : t.state = .idle
    · rw [if_pos hi]
      rfl
    rw [if_neg hi]
    dsimp only
    generalize hstep : (if t.left < cycles then t.left else cycles) = step
    by_cases hl : t.left - step = 0
    · rw [if_pos hl]
      by_cases hg : t.state = .gemm
      · rw [if_pos hg]
        have he := gemmEnd_conserves
          (t := { t with now := t.now + step, left := t.left - step }) hg
        have hn := startNext_conserves k
          (gemmEnd { t with now := t.now + step, left := t.left - step }).1
        simp only [endedCmds_append, List.append_assoc]
        rw [← ih, ← hn, ← he]
        exact accepted_congr rfl rfl rfl
      · rw [if_neg hg]
        have hn := startNext_conserves k
          (calEnd { t with now := t.now + step, left := t.left - step })
        simp only [endedCmds_append, List.nil_append, List.append_assoc]
        rw [← ih, ← hn, accepted_of_not_gemm hg, accepted_of_not_gemm (by simp), calEnd_q]
    · rw [if_neg hl, ← ih]
      exact accepted_congr rfl rfl rfl

/-- The turns of the loop that end something: what waits, and what holds the tile. -/
def turns (t : Twin Dev P) : ℕ :=
  t.q.length + (if t.calPending then 1 else 0) + (if t.state = .idle then 0 else 1)

theorem startQueued_turns (k : TileKernel Dev) (q : List (Cmd P)) :
    ∀ t : Twin Dev P, t.state = .idle → t.calPending = false →
      turns (startQueued k q t).1 ≤ q.length := by
  induction q with
  | nil =>
    intro t h hc
    simp [startQueued, turns, h, hc]
  | cons c q ih =>
    intro t h hc
    simp only [startQueued]
    obtain ⟨-, hs, -, hp⟩ | ⟨-, hs, -, hq, hp⟩ := gemmBegin_cases k (t := { t with q := q }) c h
    · rw [if_pos hs]
      have := ih _ hs (hp.trans hc)
      simp only [List.length_cons]
      omega
    · rw [if_neg (by rw [hs]; decide)]
      unfold turns
      rw [hs, hq, hp, hc]
      simp

theorem startNext_turns (k : TileKernel Dev) {t : Twin Dev P} (h : t.state = .idle) :
    turns (startNext k t).1 ≤ turns t := by
  unfold startNext
  rw [if_neg (by simp [h])]
  by_cases hc : t.calPending = true
  · rw [if_pos hc]
    simp [turns, hc, h]
  · rw [if_neg hc]
    have hc' : t.calPending = false := by simpa using hc
    have := startQueued_turns k t.q t h hc'
    simpa [turns, hc', h] using this

/-- With enough fuel the loop stops because the cycles are spent, as the source's does. -/
theorem runLoop_drains (k : TileKernel Dev) (fuel : ℕ) :
    ∀ (t : Twin Dev P) (cycles : U64), turns t < fuel → (runLoop k fuel t cycles).2.2 = 0 := by
  induction fuel with
  | zero => exact fun t _ h => absurd h (Nat.not_lt_zero _)
  | succ fuel ih =>
    intro t cycles h
    unfold runLoop
    by_cases hc : cycles = 0
    · rw [if_pos hc]
    rw [if_neg hc]
    by_cases hi : t.state = .idle
    · rw [if_pos hi]
    rw [if_neg hi]
    rw [show turns t = t.q.length + (if t.calPending then 1 else 0) + 1 by simp [turns, hi]] at h
    dsimp only
    by_cases hl : t.left - (if t.left < cycles then t.left else cycles) = 0
    · rw [if_pos hl]
      generalize (if t.left < cycles then t.left else cycles) = step
      by_cases hg : t.state = .gemm
      · rw [if_pos hg]
        refine ih _ _ (lt_of_le_of_lt (startNext_turns k (gemmEnd_state _)) ?_)
        simp only [turns, gemmEnd_q, gemmEnd_calPending, gemmEnd_state, if_true]
        exact Nat.lt_of_succ_lt_succ h
      · rw [if_neg hg]
        refine ih _ _ (lt_of_le_of_lt (startNext_turns k (calEnd_state _)) ?_)
        simp only [turns, calEnd_q, calEnd_calPending, calEnd_state, if_true]
        exact Nat.lt_of_succ_lt_succ h
    · rw [if_neg hl]
      -- the step spent every cycle, so the next turn is the last
      by_cases hlt : t.left < cycles
      · simp [hlt] at hl
      · simp only [if_neg hlt, BitVec.sub_self]
        cases fuel <;> simp [runLoop]

/-- The fuel of `run` is enough from every state. -/
theorem turns_lt_runFuel (t : Twin Dev P) : turns t < runFuel t := by
  unfold turns runFuel
  split <;> split <;> omega

/-- Running the twin ends a prefix of what it had accepted. -/
theorem run_conserves (k : TileKernel Dev) (t : Twin Dev P) (cycles : U64) :
    accepted t = endedCmds (run k t cycles).2 ++ accepted (run k t cycles).1 :=
  runLoop_conserves k (runFuel t) t cycles

/-! ## The window -/

/-- A read moves nothing but the latches. -/
theorem read32_accepted (t : Twin Dev P) (off : U32) :
    accepted (read32 t off).1 = accepted t := by
  refine accepted_congr ?_ ?_ ?_ <;>
  · unfold read32
    dsimp only
    repeat' split
    all_goals rfl

theorem writeCtrl_conserves (k : TileKernel Dev) (t : Twin Dev P) (v : U32) :
    accepted t = endedCmds (writeCtrl k t v).2 ++ accepted (writeCtrl k t v).1 := by
  unfold writeCtrl
  dsimp only
  generalize hu : (if v &&& 0x08 ≠ 0 then _ else _ : Twin Dev P) = u
  have hacc : accepted u = accepted t := by
    subst hu
    refine accepted_congr ?_ ?_ ?_ <;>
    · repeat' split
      all_goals rfl
  rw [← hacc]
  split
  · exact (accepted_congr rfl rfl rfl : accepted { u with calPending := true } = _).symm.trans
      (startNext_conserves k _)
  · rfl

theorem write32_conserves (k : TileKernel Dev) (t : Twin Dev P) (off v : U32) :
    accepted t = endedCmds (write32 k t off v).2 ++ accepted (write32 k t off v).1 := by
  unfold write32 sendAffine
  dsimp only
  repeat' split
  case _ => rfl
  case _ => rfl
  case _ => rfl
  case _ => rfl
  case _ => rfl
  case _ => exact writeCtrl_conserves k t v
  case _ => rfl

theorem age_accepted (k : TileKernel Dev) (t : Twin Dev P) (steps : U64) :
    accepted (age k t steps).2 = accepted t := by
  unfold age
  repeat' split
  all_goals rfl

/-! ## A free tile has nothing waiting -/

/-- The twin between its operations: a tile that nothing holds has nothing to do. -/
def Settled (t : Twin Dev P) : Prop :=
  t.state = .idle → t.q = [] ∧ t.calPending = false

theorem SameQueue.settled {t t' : Twin Dev P} (h : SameQueue t t') (ht : Settled t) :
    Settled t' := by
  intro hi
  rw [h.q, h.calPending]
  exact ht (h.state ▸ hi)

theorem startQueued_settled (k : TileKernel Dev) (q : List (Cmd P)) :
    ∀ t : Twin Dev P, t.state = .idle → t.calPending = false →
      Settled (startQueued k q t).1 := by
  induction q with
  | nil => exact fun t _ hc _ => ⟨rfl, hc⟩
  | cons c q ih =>
    intro t hi hc
    simp only [startQueued]
    obtain ⟨-, hs, -, hp⟩ | ⟨-, hs, -, -, -⟩ := gemmBegin_cases k (t := { t with q := q }) c hi
    · rw [if_pos hs]
      exact ih _ hs (hp.trans hc)
    · rw [if_neg (by simp [hs])]
      exact fun h => absurd (hs.symm.trans h) (by simp)

theorem startNext_settled (k : TileKernel Dev) (t : Twin Dev P) : Settled (startNext k t).1 := by
  unfold startNext
  split
  · next h => exact fun hi => absurd hi h
  · next h =>
    split
    · exact fun hi => by cases hi
    · next hc => exact startQueued_settled k t.q t (by simpa using h) (by simpa using hc)

theorem runLoop_settled (k : TileKernel Dev) (fuel : ℕ) :
    ∀ (t : Twin Dev P) (cycles : U64), Settled t → Settled (runLoop k fuel t cycles).1 := by
  induction fuel with
  | zero => exact fun _ _ h => h
  | succ fuel ih =>
    intro t cycles h
    unfold runLoop
    split
    · exact h
    split
    · exact h
    next hi =>
    dsimp only
    generalize (if t.left < cycles then t.left else cycles) = step
    split
    · exact ih _ _ (startNext_settled k _)
    · exact ih _ _ fun hidle => absurd hidle hi

theorem run_settled (k : TileKernel Dev) {t : Twin Dev P} (h : Settled t) (cycles : U64) :
    Settled (run k t cycles).1 :=
  runLoop_settled k (runFuel t) t cycles h

theorem submit_settled (k : TileKernel Dev) {t : Twin Dev P} (h : Settled t) (c : Cmd P) :
    Settled (submit k t c).2.1 := by
  have hcopy := copyMallocs_sameQueue t c
  unfold submit
  split
  · exact h
  split
  · exact h
  rcases hcm : copyMallocs t c with ⟨ok, u⟩
  rw [hcm] at hcopy
  have hu := hcopy.settled h
  cases ok with
  | false => exact hu
  | true =>
    dsimp only
    split
    · next hfree =>
      intro hi
      obtain ⟨-, -, hq, hp⟩ | ⟨-, hs, -, -, -⟩ := gemmBegin_cases k (copyCmd c) hfree.1
      · exact ⟨hq.trans hfree.2.2, hp.trans (by simpa using hfree.2.1)⟩
      · exact absurd (hs.symm.trans hi) (by simp)
    · next hbusy =>
      intro hi
      obtain ⟨hq, hp⟩ := hu hi
      exact absurd ⟨hi, by simpa using hp, hq⟩ hbusy

end Grxcp.PtaTwin
