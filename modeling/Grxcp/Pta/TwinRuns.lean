import Grxcp.Pta.TwinTurns

/-!
# Every accepted command ends once

Over every run of the twin, move by move: the commands accepted so far are those that have ended, in
that order, and then those that are pending; they have their turns at the tile in the order they were
accepted, and none while a calibration holds it; and the status word says which of the two holds.
-/

namespace Grxcp.PtaTwin

open Runs

variable {Dev P : Type}

/-! ## What the moves say -/

/-- The command a move accepts. -/
def Move.accepts : Move P → Option (Cmd P)
  | .accept c => some c
  | _ => none

/-- The command whose turn at the tile a move is. -/
def Move.begins : Move P → Option (Cmd P)
  | .start c => some c
  | .refuse c => some c
  | _ => none

/-- The commands accepted, in order. -/
def acceptedCmds (ms : List (Move P)) : List (Cmd P) :=
  ms.filterMap Move.accepts

/-- The commands that have had their turn at the tile, in order. -/
def begunCmds (ms : List (Move P)) : List (Cmd P) :=
  ms.filterMap Move.begins

/-- A calibration has begun, and has neither ended nor been dropped. -/
def calibrating (ms : List (Move P)) : Bool :=
  ms.foldl (fun b m => match m with
    | .calBegin => true
    | .calEnd _ => false
    | .reset => false
    | _ => b) false

/-- The commands a sequence of operations got accepted: those whose `submit` said so. -/
def opsAccepted (k : TileKernel Dev) : Twin Dev P → List (Op P) → List (Cmd P)
  | _, [] => []
  | t, o :: os =>
      (match o with
        | .submit c => if (submit k t c).1 then [copyCmd c] else []
        | _ => []) ++ opsAccepted k (o.apply k t).1 os

/-- The command on the tile, if one is. -/
def atTile (t : Twin Dev P) : List (Cmd P) :=
  if t.state = .gemm then [t.cur] else []

variable {k : TileKernel Dev} {t : Twin Dev P}

@[simp] theorem acceptedCmds_append (ms ms' : List (Move P)) :
    acceptedCmds (ms ++ ms') = acceptedCmds ms ++ acceptedCmds ms' :=
  List.filterMap_append

@[simp] theorem acceptedCmds_singleton (m : Move P) : acceptedCmds [m] = m.accepts.toList := by
  unfold acceptedCmds
  cases h : m.accepts <;> simp [h]

theorem acceptedCmds_cons (m : Move P) (ms : List (Move P)) :
    acceptedCmds (m :: ms) = m.accepts.toList ++ acceptedCmds ms := by
  rw [← acceptedCmds_singleton, ← acceptedCmds_append]
  rfl

@[simp] theorem begunCmds_append (ms ms' : List (Move P)) :
    begunCmds (ms ++ ms') = begunCmds ms ++ begunCmds ms' :=
  List.filterMap_append

@[simp] theorem begunCmds_singleton (m : Move P) : begunCmds [m] = m.begins.toList := by
  unfold begunCmds
  cases h : m.begins <;> simp [h]

theorem calibrating_snoc (ms : List (Move P)) (m : Move P) :
    calibrating (ms ++ [m]) = match m with
      | .calBegin => true
      | .calEnd _ => false
      | .reset => false
      | _ => calibrating ms := by
  unfold calibrating
  rw [List.foldl_append]
  rfl

theorem accepted_eq (t : Twin Dev P) : accepted t = atTile t ++ t.q := rfl

/-! ## What a move does to the commands -/

theorem storeWord_sameQueue (k : TileKernel Dev) (t : Twin Dev P) (off v : U32) :
    SameQueue t (storeWord k t off v) := by
  unfold storeWord
  split
  · unfold storeCtrl
    dsimp only
    repeat' split
    all_goals exact ⟨rfl, rfl, rfl, rfl⟩
  · next ho =>
    unfold write32 sendAffine
    dsimp only
    repeat' split
    all_goals exact ⟨rfl, rfl, rfl, rfl⟩

theorem read32_sameQueue (t : Twin Dev P) (off : U32) : SameQueue t (read32 t off).1 := by
  refine ⟨?_, ?_, ?_, ?_⟩ <;>
  · unfold read32
    dsimp only
    repeat' split
    all_goals rfl

theorem age_sameQueue (k : TileKernel Dev) (t : Twin Dev P) (steps : U64) :
    SameQueue t (age k t steps).2 := by
  unfold age
  repeat' split
  all_goals exact ⟨rfl, rfl, rfl, rfl⟩

theorem SameQueue.atTile {t t' : Twin Dev P} (h : SameQueue t t') :
    PtaTwin.atTile t' = PtaTwin.atTile t := by
  simp [PtaTwin.atTile, h.state, h.cur]

/-- A move other than these leaves the queue and the tile's holder as they are. -/
def Move.quiet : Move P → Bool
  | .copy _ | .pass _ | .store .. | .latch _ | .age _ => true
  | _ => false

theorem quiet_sameQueue {m : Move P} (h : m.quiet) :
    SameQueue t (m.apply k t).1 ∧ (m.apply k t).2 = [] := by
  cases m with
  | copy c => exact ⟨copyMallocs_sameQueue t c, rfl⟩
  | pass cycles => exact ⟨⟨rfl, rfl, rfl, rfl⟩, rfl⟩
  | store off v => exact ⟨storeWord_sameQueue k t off v, rfl⟩
  | latch off => exact ⟨read32_sameQueue t off, rfl⟩
  | age steps => exact ⟨age_sameQueue k t steps, rfl⟩
  | accept | start | refuse | finish | calBegin | calEnd | calNow | reset => cases h

theorem quiet_log {m : Move P} (h : m.quiet) : m.accepts = none ∧ m.begins = none := by
  cases m <;> first | exact ⟨rfl, rfl⟩ | cases h

/-- What a turn at the tile does to the commands. -/
theorem turn_conserves {c : Cmd P} (hi : t.state = .idle) (hq : t.q = c :: t.q.tail) :
    accepted t = endedCmds (gemmBegin k { t with q := t.q.tail } c).2 ++
        accepted (gemmBegin k { t with q := t.q.tail } c).1 ∧
      [c] = endedCmds (gemmBegin k { t with q := t.q.tail } c).2 ++
        atTile (gemmBegin k { t with q := t.q.tail } c).1 := by
  constructor
  · rw [accepted_of_not_gemm (by simp [hi]), hq]
    exact gemmBegin_conserves k (t := { t with q := t.q.tail }) c hi
  · obtain ⟨he, hs, -⟩ | ⟨he, hs, hc, -⟩ :=
      gemmBegin_cases k (t := { t with q := t.q.tail }) c hi
    · rw [he]
      simp [atTile, hs, endedCmds]
    · rw [he]
      simp [atTile, hs, hc]

/-- A move takes from the front of what is accepted what it ends, and adds what it accepts. -/
theorem Move.conserves {m : Move P} (hm : m.Ready k t) :
    accepted t ++ m.accepts.toList =
      endedCmds (m.apply k t).2 ++ accepted (m.apply k t).1 := by
  by_cases hquiet : m.quiet = true
  · rw [(quiet_sameQueue hquiet).2, (quiet_sameQueue hquiet).1.accepted, (quiet_log hquiet).1]
    simp
  cases m with
  | copy | pass | store | latch | age => exact absurd rfl hquiet
  | accept c => exact List.append_assoc _ _ _
  | start c => exact (List.append_nil _).trans (turn_conserves hm.1 hm.2.2.1).1
  | refuse c => exact (List.append_nil _).trans (turn_conserves hm.1 hm.2.2.1).1
  | finish => exact (List.append_nil _).trans (gemmEnd_conserves hm.1)
  | calBegin =>
    rw [accepted_of_not_gemm (by simp [hm.1])]
    exact List.append_nil _
  | calEnd r =>
    rw [accepted_of_not_gemm (by simp [hm.1])]
    exact List.append_nil _
  | calNow => exact List.append_nil _
  | reset =>
    obtain ⟨h, h'⟩ := reset_conserves k t
    show accepted t ++ [] = endedCmds (PtaTwin.reset k t).2 ++ accepted (PtaTwin.reset k t).1
    rw [h', ← h]

theorem sublist_of_eq {l l' : List (Cmd P)} (h : l = l') : l.Sublist l' :=
  h ▸ List.Sublist.refl l

/-- A move that ends a command ends the one on the tile, or the one whose turn it is. -/
theorem Move.turns {m : Move P} (hm : m.Ready k t) :
    (atTile t ++ m.begins.toList).Sublist
      (endedCmds (m.apply k t).2 ++ atTile (m.apply k t).1) := by
  by_cases hquiet : m.quiet = true
  · rw [(quiet_sameQueue hquiet).2, (quiet_sameQueue hquiet).1.atTile, (quiet_log hquiet).2]
    simp
  have hfree : ∀ c, t.state ≠ .gemm → atTile t ++ [c] = [c] := fun c h => by
    rw [atTile, if_neg h, List.nil_append]
  cases m with
  | copy | pass | store | latch | age => exact absurd rfl hquiet
  | accept c => exact sublist_of_eq (List.append_nil (atTile t))
  | start c =>
    show (atTile t ++ [c]).Sublist _
    rw [hfree c (by simp [hm.1])]
    exact sublist_of_eq (turn_conserves hm.1 hm.2.2.1).2
  | refuse c =>
    show (atTile t ++ [c]).Sublist _
    rw [hfree c (by simp [hm.1])]
    exact sublist_of_eq (turn_conserves hm.1 hm.2.2.1).2
  | finish =>
    show (atTile t ++ []).Sublist ([t.cur] ++ atTile (gemmEnd t).1)
    rw [atTile, if_pos hm.1, List.append_nil]
    exact List.sublist_append_left _ _
  | calBegin =>
    show (atTile t ++ []).Sublist _
    rw [atTile, if_neg (by simp [hm.1])]
    exact List.nil_sublist _
  | calEnd r =>
    show (atTile t ++ []).Sublist _
    rw [atTile, if_neg (by simp [hm.1])]
    exact List.nil_sublist _
  | calNow => exact sublist_of_eq (List.append_nil (atTile t))
  | reset =>
    show (atTile t ++ []).Sublist (endedCmds (PtaTwin.reset k t).2 ++ _)
    rw [List.append_nil, ← (reset_conserves k t).1, accepted_eq, List.append_assoc]
    exact List.sublist_append_left _ _

/-- A move other than those of a calibration leaves `T_CAL` alone. -/
theorem Move.calState {m : Move P} (hm : m.Ready k t) :
    (m.apply k t).1.state = .cal ↔ match m with
      | .calBegin => True
      | .calEnd _ => False
      | .reset => False
      | _ => t.state = .cal := by
  by_cases hquiet : m.quiet = true
  · rw [(quiet_sameQueue hquiet).1.state]
    cases m <;> first | rfl | cases hquiet
  cases m with
  | copy | pass | store | latch | age => exact absurd rfl hquiet
  | accept c => rfl
  | start c =>
    show (gemmBegin k { t with q := t.q.tail } c).1.state = .cal ↔ t.state = .cal
    rw [hm.2.2.2, hm.1]
    simp
  | refuse c =>
    show (gemmBegin k { t with q := t.q.tail } c).1.state = .cal ↔ t.state = .cal
    rw [hm.2.2.2, hm.1]
  | finish => simp [Move.apply, hm.1]
  | calBegin => simp [Move.apply]
  | calEnd r => simp [Move.apply]
  | calNow => rfl
  | reset => simp [Move.apply, PtaTwin.reset, dropAll]

/-! ## The status word -/

theorem shiftLeft_and (v : U32) {mask : U32} (h : mask.toNat < 256) : (v <<< 8) &&& mask = 0 := by
  apply BitVec.eq_of_getLsbD_eq
  intro i hi
  rw [BitVec.getLsbD_and, BitVec.getLsbD_shiftLeft]
  by_cases h8 : i < 8
  · simp [h8]
  · have hm : mask.getLsbD i = false := by
      apply Nat.testBit_lt_two_pow
      calc mask.toNat < 2 ^ 8 := h
        _ ≤ 2 ^ i := Nat.pow_le_pow_right (by decide) (by omega)
    simp [hm]

/-- `PTA_STATUS.BUSY`. -/
theorem statusWord_busy (t : Twin Dev P) : statusWord t &&& 0x10 ≠ 0 ↔ 0 < pending t := by
  have hp : 0 < pending t ↔ t.state = .gemm ∨ t.q ≠ [] := by
    rw [pending_eq_length, List.length_pos_iff, accepted]
    by_cases hg : t.state = .gemm <;> simp [hg]
  have h8 : (t.regs.errMax &&& 0xFFFF) <<< 8 &&& 0x10 = 0 := shiftLeft_and _ (by decide)
  rw [hp]
  unfold statusWord
  simp only [BitVec.and_or_distrib_right, h8]
  by_cases hb : t.state = .gemm ∨ t.q ≠ []
  · simp only [hb, if_true]
    split_ifs <;> simp
  · simp only [hb, if_false]
    split_ifs <;> simp

/-- `PTA_STATUS.CAL_BUSY`. -/
theorem statusWord_calBusy (t : Twin Dev P) : statusWord t &&& 0x01 ≠ 0 ↔ t.state = .cal := by
  have h8 : (t.regs.errMax &&& 0xFFFF) <<< 8 &&& 0x01 = 0 := shiftLeft_and _ (by decide)
  unfold statusWord
  simp only [BitVec.and_or_distrib_right, h8]
  by_cases hb : t.state = .cal
  · simp only [hb, if_true]
    split_ifs <;> simp
  · simp only [hb, if_false]
    split_ifs <;> simp

/-- The twin writes a result buffer as a command ends done, and it is that command's. -/
theorem stores_result {e : Ending P} {p : P} {out : List ℤ} (h : Store.result p out ∈ e.stores) :
    e.cmd.C = some p ∧ ∃ sats clips, e.how = .done out sats clips := by
  obtain ⟨c, how⟩ := e
  cases how with
  | done out' sats clips =>
    simp only [Ending.stores] at h
    split at h <;> simp at h
    exact ⟨h.1, sats, clips, by rw [h.2]⟩
  | refused => simp [Ending.stores] at h
  | lost => simp [Ending.stores] at h

/-! ## Every run -/

/-- What holds of the commands at every moment of a run. -/
structure Conserved (s : History Dev P) : Prop where
  /-- Every accepted command has ended or is pending, in that order. -/
  accounts : acceptedCmds s.moves = endedCmds s.ended ++ accepted s.twin
  /-- Those that have had their turn had it in that order. -/
  turns : (begunCmds s.moves).Sublist (endedCmds s.ended ++ atTile s.twin)
  cal : calibrating s.moves = true ↔ s.twin.state = .cal

theorem Conserved.step {s : History Dev P} (h : Conserved s) {m : Move P}
    (hm : m.Ready k s.twin) : Conserved (s.step k m) where
  accounts := by
    show acceptedCmds (s.moves ++ [m]) = endedCmds (s.ended ++ (m.apply k s.twin).2) ++ _
    rw [acceptedCmds_append, acceptedCmds_singleton, h.accounts, endedCmds_append,
      List.append_assoc, List.append_assoc]
    exact congrArg _ (Move.conserves hm)
  turns := by
    show (begunCmds (s.moves ++ [m])).Sublist (endedCmds (s.ended ++ (m.apply k s.twin).2) ++ _)
    rw [begunCmds_append, begunCmds_singleton, endedCmds_append, List.append_assoc]
    calc (begunCmds s.moves ++ m.begins.toList).Sublist
          (endedCmds s.ended ++ atTile s.twin ++ m.begins.toList) := h.turns.append_right _
      _ = endedCmds s.ended ++ (atTile s.twin ++ m.begins.toList) := List.append_assoc _ _ _
      List.Sublist _ (endedCmds s.ended ++ _) := (Move.turns hm).append_left _
  cal := by
    show calibrating (s.moves ++ [m]) = true ↔ (m.apply k s.twin).1.state = .cal
    rw [calibrating_snoc, Move.calState hm]
    cases m <;> first | exact h.cal | simp

theorem Conserved.new (b : Build) (dev : Dev) (heap : ℕ → Bool) :
    Conserved (History.new b dev heap : History Dev P) where
  accounts := rfl
  turns := List.nil_sublist _
  cal := by
    show false = true ↔ Hold.idle = Hold.cal
    simp

/-- A turn at the tile: the tile is free of calibrations, and the command is the oldest one that has
not ended. -/
def TurnRule (s : History Dev P) (m : Move P) : Prop :=
  ∀ c, m.begins = some c →
    calibrating s.moves = false ∧ (acceptedCmds s.moves)[s.ended.length]? = some c

theorem Conserved.turnRule {s : History Dev P} (h : Conserved s) {m : Move P}
    (hm : m.Ready k s.twin) : TurnRule s m := by
  have hturn : ∀ c, s.twin.state = .idle → s.twin.q = c :: s.twin.q.tail →
      calibrating s.moves = false ∧ (acceptedCmds s.moves)[s.ended.length]? = some c := by
    intro c hi hq
    constructor
    · have := h.cal
      rw [hi] at this
      simpa using this
    · rw [h.accounts, accepted_of_not_gemm (by simp [hi]), hq]
      simp [endedCmds]
  intro c hc
  cases m with
  | start c' =>
    cases hc
    exact hturn c hm.1 hm.2.2.1
  | refuse c' =>
    cases hc
    exact hturn c hm.1 hm.2.2.1
  | copy | accept | finish | calBegin | calEnd | pass | store | calNow | latch | age | reset =>
    cases hc

/-- What every ready move keeps, every sequence of operations keeps, and it holds before each of its
moves. -/
theorem ops_invariant {I : History Dev P → Prop}
    (hstep : ∀ s m, I s → m.Ready k s.twin → I (s.step k m)) {s : History Dev P} (hs : I s)
    (os : List (Op P)) :
    I (after (History.step k) s (opsMoves k s.twin os)) ∧
      Along (History.step k) (fun s m => I s ∧ m.Ready k s.twin) s (opsMoves k s.twin os) := by
  have hready := (opsMoves_spec (k := k) os s.twin).ready s rfl
  revert hready hs
  generalize opsMoves k s.twin os = ms
  induction ms generalizing s with
  | nil => exact fun hs _ => ⟨hs, trivial⟩
  | cons m ms ih =>
    intro hs hready
    obtain ⟨hfinal, halong⟩ := ih (hstep s m hs hready.1) hready.2
    exact ⟨hfinal, ⟨hs, hready.1⟩, halong⟩

/-! ## The twin between operations -/

theorem write32_settled (h : Settled t) (off v : U32) : Settled (write32 k t off v).1 := by
  rw [write32_eq]
  split
  · exact startNext_settled k _
  · exact (storeWord_sameQueue k t off v).settled h

theorem Op.apply_settled (h : Settled t) (o : Op P) : Settled (o.apply k t).1 := by
  cases o with
  | submit c => exact submit_settled k h c
  | run cycles => exact run_settled k h cycles
  | write32 off v => exact write32_settled h off v
  | read32 off => exact (read32_sameQueue t off).settled h
  | age steps => exact (age_sameQueue k t steps).settled h
  | reset => exact fun _ => ⟨rfl, rfl⟩

theorem opsApply_settled (os : List (Op P)) :
    ∀ t : Twin Dev P, Settled t → Settled (opsApply k t os).1 := by
  induction os with
  | nil => exact fun _ h => h
  | cons o os ih => exact fun _ h => ih _ (o.apply_settled h)

/-- A free tile between operations has nothing to end. -/
theorem Settled.accepted (h : Settled t) (hi : t.state = .idle) : accepted t = [] := by
  rw [accepted_of_not_gemm (by simp [hi]), (h hi).1]

/-- An operation ends what was pending and what it brought, and the rest is pending. -/
theorem Op.apply_conserves (t : Twin Dev P) (o : Op P) :
    PtaTwin.accepted t ++ opsAccepted k t [o] =
      endedCmds (o.apply k t).2 ++ PtaTwin.accepted (o.apply k t).1 := by
  cases o with
  | submit c =>
    show _ ++ ((if (PtaTwin.submit k t c).1 then [copyCmd c] else []) ++ []) = _
    rw [List.append_nil]
    by_cases h : (PtaTwin.submit k t c).1 = true
    · rw [if_pos h]
      exact submit_conserves h
    · obtain ⟨hended, hsame⟩ := submit_refused (by simpa using h)
      rw [if_neg h, List.append_nil]
      show _ = endedCmds (PtaTwin.submit k t c).2.2 ++ PtaTwin.accepted (PtaTwin.submit k t c).2.1
      rw [hended, hsame.accepted]
      rfl
  | run cycles => exact (List.append_nil _).trans (run_conserves k t cycles)
  | write32 off v => exact (List.append_nil _).trans (write32_conserves k t off v)
  | read32 off => exact (List.append_nil _).trans (read32_accepted t off).symm
  | age steps => exact (List.append_nil _).trans (age_accepted k t steps).symm
  | reset =>
    obtain ⟨hended, hleft⟩ := reset_conserves k t
    show _ ++ [] = endedCmds (PtaTwin.reset k t).2 ++ PtaTwin.accepted (PtaTwin.reset k t).1
    rw [hleft, hended]

/-! ## The moves of an operation accept what its `submit` accepts -/

theorem queuedMoves_accepts (q : List (Cmd P)) :
    ∀ t : Twin Dev P, acceptedCmds (queuedMoves k q t) = [] := by
  induction q with
  | nil => exact fun _ => rfl
  | cons c q ih =>
    intro t
    simp only [queuedMoves]
    split
    · exact ih _
    · rfl

theorem nextMoves_accepts (t : Twin Dev P) : acceptedCmds (nextMoves k t) = [] := by
  unfold nextMoves
  split
  · rfl
  split
  · rfl
  · exact queuedMoves_accepts t.q t

theorem loopMoves_accepts (fuel : ℕ) :
    ∀ (t : Twin Dev P) (cycles : U64), acceptedCmds (loopMoves k fuel t cycles) = [] := by
  induction fuel with
  | zero => exact fun _ _ => rfl
  | succ fuel ih =>
    intro t cycles
    unfold loopMoves
    split
    · rfl
    split
    · rfl
    dsimp only
    generalize (if t.left < cycles then t.left else cycles) = step
    rw [acceptedCmds_cons]
    split
    · rw [acceptedCmds_cons, acceptedCmds_append, nextMoves_accepts, ih]
      split <;> rfl
    · rw [ih]
      rfl

theorem submitMoves_accepts (t : Twin Dev P) (c : Cmd P) :
    acceptedCmds (submitMoves k t c) = if (submit k t c).1 then [copyCmd c] else [] := by
  unfold submitMoves submit
  split
  · rfl
  split
  · rfl
  rcases copyMallocs t c with ⟨ok, u⟩
  cases ok with
  | false => rfl
  | true =>
    dsimp only
    split
    · have h := queuedMoves_accepts (k := k) [copyCmd c] { u with q := [copyCmd c] }
      show copyCmd c :: acceptedCmds (queuedMoves k [copyCmd c] _) = _
      rw [h]
      rfl
    · rfl

theorem acceptedCmds_opsMoves (os : List (Op P)) :
    ∀ t : Twin Dev P, acceptedCmds (opsMoves k t os) = opsAccepted k t os := by
  induction os with
  | nil => exact fun _ => rfl
  | cons o os ih =>
    intro t
    unfold opsMoves opsAccepted
    rw [acceptedCmds_append, ih]
    refine congrArg (· ++ _) ?_
    cases o with
    | submit c => exact submitMoves_accepts t c
    | run cycles => exact loopMoves_accepts _ t cycles
    | write32 off v =>
      show acceptedCmds (writeMoves k t off v) = []
      unfold writeMoves
      split
      · exact nextMoves_accepts _
      · rfl
    | read32 | age | reset => rfl

/-- Command conservation. Along every run of the twin each accepted command is pending or has ended
once, in the order of acceptance; turns at the tile are in that order and never while a calibration
holds it; the count and the two status bits say so; and only an end by `done` writes a result. -/
theorem command_conservation (k : TileKernel Dev) (b : Build) (dev : Dev) (heap : ℕ → Bool)
    (os : List (Op P)) :
    let new : History Dev P := History.new b dev heap
    let s := after (History.step k) new (opsMoves k new.twin os)
    opsApply k new.twin os = (s.twin, s.ended) ∧
      opsAccepted k new.twin os = endedCmds s.ended ++ accepted s.twin ∧
      pending s.twin + s.ended.length = (opsAccepted k new.twin os).length ∧
      (begunCmds s.moves).Sublist (opsAccepted k new.twin os) ∧
      (statusWord s.twin &&& 0x10 ≠ 0 ↔ 0 < pending s.twin) ∧
      (statusWord s.twin &&& 0x01 ≠ 0 ↔ calibrating s.moves = true) ∧
      (∀ e ∈ s.ended, ∀ p out, Store.result p out ∈ e.stores →
        e.cmd.C = some p ∧ ∃ sats clips, e.how = .done out sats clips) ∧
      Along (History.step k) (fun s m => Conserved s ∧ TurnRule s m) new
        (opsMoves k new.twin os) := by
  intro new s
  obtain ⟨h, halong⟩ := ops_invariant (k := k) (fun s m hs hm => Conserved.step hs hm)
    (Conserved.new b dev heap) os
  have hs : s = ⟨(opsApply k new.twin os).1, opsMoves k new.twin os,
      (opsApply k new.twin os).2⟩ := (opsMoves_spec os new.twin).after new rfl
  have hmoves : acceptedCmds s.moves = opsAccepted k new.twin os := by
    rw [hs]
    exact acceptedCmds_opsMoves os new.twin
  have haccounts : opsAccepted k new.twin os = endedCmds s.ended ++ accepted s.twin :=
    hmoves.symm.trans h.accounts
  refine ⟨by rw [hs], haccounts, ?_, ?_, statusWord_busy _, ?_, fun e _ p out => stores_result, ?_⟩
  · rw [haccounts, pending_eq_length, List.length_append, endedCmds, List.length_map, Nat.add_comm]
  · rw [haccounts, accepted_eq, ← List.append_assoc]
    exact h.turns.trans (List.sublist_append_left _ _)
  · rw [statusWord_calBusy]
    exact h.cal.symm
  · exact halong.mono fun s m hm => ⟨hm.1, hm.1.turnRule hm.2⟩

end Grxcp.PtaTwin
