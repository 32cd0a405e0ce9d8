import Grxcp.Pta.TwinRuns
import Grxcp.Pta.TwinTurns

/-!
# Commands are served in order

While no register is written and no calibration is asked for, the tile takes the commands in the order
they were accepted, each on what the one before it left. How the host cuts its time into runs, and how
far ahead it submits, moves the clock and nothing else.

`serve` is one command's whole turn on a free tile. `InOrder` says that what a run has ended is the
`serve`s of those commands, and it holds at every point of every run (`InOrder.step`).
-/

namespace Grxcp.PtaTwin

open Runs

variable {Dev P : Type}

/-- A command's whole turn on a free tile: it starts and ends, or it is refused. -/
def serve (k : TileKernel Dev) (t : Twin Dev P) (c : Cmd P) : Twin Dev P × List (Ending P) :=
  match gemmBegin k t c with
  | (t, es) => if t.state = .gemm then ((gemmEnd t).1, es ++ (gemmEnd t).2) else (t, es)

/-- The turns of a list of commands. -/
def serveAll (k : TileKernel Dev) : Twin Dev P → List (Cmd P) → Twin Dev P × List (Ending P)
  | t, [] => (t, [])
  | t, c :: cs => ((serveAll k (serve k t c).1 cs).1, (serve k t c).2 ++ (serveAll k (serve k t c).1 cs).2)

/-- The twin without its clock and its queue. -/
def Twin.still (t : Twin Dev P) : Twin Dev P :=
  { t with now := 0, left := 0, q := [] }

variable {k : TileKernel Dev} {t u : Twin Dev P}

theorem serveAll_append (cs cs' : List (Cmd P)) :
    ∀ t : Twin Dev P, serveAll k t (cs ++ cs') =
      ((serveAll k (serveAll k t cs).1 cs').1,
        (serveAll k t cs).2 ++ (serveAll k (serveAll k t cs).1 cs').2) := by
  induction cs with
  | nil => exact fun _ => rfl
  | cons c cs ih =>
    intro t
    simp only [List.cons_append, serveAll, ih, List.append_assoc]

theorem serveAll_snoc (t : Twin Dev P) (cs : List (Cmd P)) (c : Cmd P) :
    serveAll k t (cs ++ [c]) =
      ((serve k (serveAll k t cs).1 c).1,
        (serveAll k t cs).2 ++ (serve k (serveAll k t cs).1 c).2) := by
  rw [serveAll_append]
  simp [serveAll]

/-! ## What a turn leaves -/

/-- A command that was done, of arithmetic `r`: what the tile has counted, and what it holds. -/
structure Served (k : TileKernel Dev) (t : Twin Dev P) (c : Cmd P) (r : Arith) (t' : Twin Dev P) :
    Prop where
  dev : t'.dev = (tileCall k t c).1
  regs : t'.regs = { t.regs with
    gemmCt := t.regs.gemmCt + 1
    satCt := BitVec.ofInt 64 r.sats
    actClipCt := BitVec.ofInt 32 r.clips
    shotCt := t.regs.shotCt + shotsOf t.build c
    wloadCt := t.regs.wloadCt + tilesOf t.build c }
  build : t'.build = t.build
  state : t'.state = .idle
  heap : t'.heap = fun n => t.heap (n + 1)
  held : c.flags &&& cmdHold ≠ 0 →
    t'.held = r.out ∧ t'.heldM = c.M ∧ t'.heldN = c.N ∧ t'.heldValid = true

theorem serve_of_none {c : Cmd P} (hi : t.state = .idle) (h : (gemmArith k t c).2 = none) :
    (serve k t c).2 = [⟨c, .refused⟩] := by
  have hs := (gemmArith_sameQueue k t c).state
  unfold serve gemmBegin
  rcases hr : gemmArith k t c with ⟨u, r⟩
  rw [hr] at h hs
  obtain rfl : r = none := h
  have hu : u.state = .idle := hs.trans hi
  dsimp only
  rw [if_neg (by simp [hu])]

theorem serve_of_some {c : Cmd P} {r : Arith} (h : (gemmArith k t c).2 = some r) :
    (serve k t c).2 = [⟨c, .done r.out r.sats r.clips⟩] ∧ Served k t c r (serve k t c).1 := by
  rcases hr : gemmArith k t c with ⟨u, r'⟩
  rw [hr] at h
  obtain rfl : r' = some r := h
  obtain ⟨-, -, -, sums, hcall, -, hu⟩ := gemmArith_some hr
  have hdev : u.dev = (tileCall k t c).1 := by rw [hcall]
  have hbuild : u.build = t.build := by rw [hu]
  have hregs : u.regs = t.regs := by rw [hu]
  have hheap : u.heap = fun n => t.heap (n + 1) := by rw [hu]
  unfold serve gemmBegin gemmEnd
  rw [hr]
  dsimp only
  rw [if_pos rfl]
  refine ⟨rfl, ?_⟩
  by_cases hh : c.flags &&& cmdHold ≠ 0
  · rw [if_pos hh]
    exact ⟨hdev, by rw [← hregs], hbuild, rfl, hheap, fun _ => ⟨rfl, rfl, rfl, rfl⟩⟩
  · rw [if_neg hh]
    exact ⟨hdev, by rw [← hregs], hbuild, rfl, hheap, fun h => absurd h hh⟩

/-- A command on a free tile ends, and leaves it free. -/
theorem serve_one (hi : t.state = .idle) (c : Cmd P) :
    (serve k t c).1.state = .idle ∧ ∃ how, (serve k t c).2 = [⟨c, how⟩] := by
  cases hr : (gemmArith k t c).2 with
  | none =>
    refine ⟨?_, _, serve_of_none hi hr⟩
    unfold serve
    dsimp only
    obtain ⟨-, hs, -, -⟩ | ⟨-, hs, -, -, -⟩ := gemmBegin_cases k c hi
    · rw [if_neg (by simp [hs])]
      exact hs
    · rw [if_pos hs]
      rfl
  | some r => exact ⟨(serve_of_some hr).2.state, _, (serve_of_some hr).1⟩

theorem serveAll_idle (cs : List (Cmd P)) :
    ∀ t : Twin Dev P, t.state = .idle → (serveAll k t cs).1.state = .idle := by
  induction cs with
  | nil => exact fun _ h => h
  | cons c cs ih => exact fun t h => ih _ (serve_one h c).1

/-- Each command ends once, in order. -/
theorem serveAll_cmds (cs : List (Cmd P)) :
    ∀ t : Twin Dev P, t.state = .idle → endedCmds (serveAll k t cs).2 = cs := by
  induction cs with
  | nil => exact fun _ _ => rfl
  | cons c cs ih =>
    intro t h
    obtain ⟨hi, how, he⟩ := serve_one (k := k) h c
    show endedCmds ((serve k t c).2 ++ (serveAll k (serve k t c).1 cs).2) = _
    rw [endedCmds_append, ih _ hi, he]
    rfl

theorem serveAll_length (cs : List (Cmd P)) (t : Twin Dev P) (h : t.state = .idle) :
    (serveAll k t cs).2.length = cs.length := by
  have hc := congrArg List.length (serveAll_cmds (k := k) cs t h)
  rwa [endedCmds, List.length_map] at hc

/-- The first commands' turns are the first turns. -/
theorem serveAll_take (cs : List (Cmd P)) (t : Twin Dev P) (h : t.state = .idle) (n : ℕ)
    (hn : n ≤ cs.length) : (serveAll k t (cs.take n)).2 = (serveAll k t cs).2.take n := by
  have happ := serveAll_append (k := k) (cs.take n) (cs.drop n) t
  have hlen : (serveAll k t (cs.take n)).2.length = n := by
    rw [serveAll_length _ t h, List.length_take, Nat.min_eq_left hn]
  rw [List.take_append_drop] at happ
  rw [happ, List.take_left' hlen]

/-- The turn of command `i`, after those of the commands before it. -/
theorem serveAll_turn {cs : List (Cmd P)} {i : ℕ} {c : Cmd P} (hi : t.state = .idle)
    (hc : cs[i]? = some c) :
    serveAll k t (cs.take (i + 1)) =
        ((serve k (serveAll k t (cs.take i)).1 c).1,
          (serveAll k t (cs.take i)).2 ++ (serve k (serveAll k t (cs.take i)).1 c).2) ∧
      (serveAll k t cs).2[i]? = (serve k (serveAll k t (cs.take i)).1 c).2[0]? := by
  have hlt : i < cs.length := (List.getElem?_eq_some_iff.mp hc).1
  have hturn := serveAll_snoc (k := k) t (cs.take i) c
  have hsnoc : cs.take i ++ [c] = cs.take (i + 1) := by
    rw [List.take_add_one, hc]
    rfl
  rw [hsnoc] at hturn
  refine ⟨hturn, ?_⟩
  have hlen : (serveAll k t (cs.take i)).2.length = i := by
    rw [serveAll_length _ t hi, List.length_take, Nat.min_eq_left hlt.le]
  have htake := serveAll_take (k := k) cs t hi (i + 1) hlt
  rw [hturn] at htake
  have hget := congrArg (fun es => es[i]?) htake
  dsimp only at hget
  rw [List.getElem?_append_right hlen.le, hlen, Nat.sub_self,
    List.getElem?_take_of_lt (Nat.lt_succ_self i)] at hget
  exact hget.symm

/-! ## The clock plays no part in a turn -/

theorem gemmArith_still (t : Twin Dev P) (c : Cmd P) :
    gemmArith k t.still c = ((gemmArith k t c).1.still, (gemmArith k t c).2) := by
  have hact : actRefused t.still c = actRefused t c := rfl
  have hcall : tileCall k t.still c = tileCall k t c := rfl
  have hregs : t.still.regs = t.regs := rfl
  have hheap : t.still.heap = t.heap := rfl
  rw [gemmArith_eq, gemmArith_eq, hact, hcall, hregs, hheap]
  split
  · rfl
  split
  · rfl
  split <;> rfl

theorem gemmBegin_still (t : Twin Dev P) (c : Cmd P) :
    (gemmBegin k t.still c).1.still = (gemmBegin k t c).1.still ∧
      (gemmBegin k t.still c).1.state = (gemmBegin k t c).1.state ∧
      (gemmBegin k t.still c).2 = (gemmBegin k t c).2 := by
  unfold gemmBegin
  rw [gemmArith_still]
  rcases gemmArith k t c with ⟨u, _ | r⟩ <;> exact ⟨rfl, rfl, rfl⟩

/-- Turns on twins that differ by their clocks and queues. -/
theorem gemmBegin_congr (h : t.still = u.still) (c : Cmd P) :
    (gemmBegin k t c).1.still = (gemmBegin k u c).1.still ∧
      (gemmBegin k t c).1.state = (gemmBegin k u c).1.state ∧
      (gemmBegin k t c).2 = (gemmBegin k u c).2 := by
  obtain ⟨h₁, h₂, h₃⟩ := gemmBegin_still (k := k) t c
  obtain ⟨h₁', h₂', h₃'⟩ := gemmBegin_still (k := k) u c
  rw [h] at h₁ h₂ h₃
  exact ⟨h₁.symm.trans h₁', h₂.symm.trans h₂', h₃.symm.trans h₃'⟩

theorem gemmEnd_still (t : Twin Dev P) :
    (gemmEnd t.still).1.still = (gemmEnd t).1.still ∧ (gemmEnd t.still).2 = (gemmEnd t).2 := by
  unfold gemmEnd Twin.still
  dsimp only
  split <;> exact ⟨rfl, rfl⟩

theorem gemmEnd_congr (h : t.still = u.still) :
    (gemmEnd t).1.still = (gemmEnd u).1.still ∧ (gemmEnd t).2 = (gemmEnd u).2 := by
  obtain ⟨h₁, h₂⟩ := gemmEnd_still t
  obtain ⟨h₁', h₂'⟩ := gemmEnd_still u
  rw [h] at h₁ h₂
  exact ⟨h₁.symm.trans h₁', h₂.symm.trans h₂'⟩

theorem still_state (h : t.still = u.still) : t.state = u.state := by
  have hs : t.still.state = u.still.state := congrArg Twin.state h
  exact hs

theorem still_dev (h : t.still = u.still) : t.dev = u.dev := by
  have hs : t.still.dev = u.still.dev := congrArg Twin.dev h
  exact hs

theorem still_regs (h : t.still = u.still) : t.regs = u.regs := by
  have hs : t.still.regs = u.still.regs := congrArg Twin.regs h
  exact hs

/-! ## A run is the turns of what it ended -/

/-- What a run from `t₀` has ended is the turns of those commands from `t₀`, and what holds the tile is
the next one's. -/
structure InOrder (k : TileKernel Dev) (t₀ : Twin Dev P) (s : History Dev P) : Prop where
  heap : s.twin.heap = fun _ => true
  calPending : s.twin.calPending = false
  state : s.twin.state ≠ .cal
  ended : s.ended = (serveAll k t₀ (endedCmds s.ended)).2
  idle : s.twin.state = .idle → s.twin.still = (serveAll k t₀ (endedCmds s.ended)).1.still
  busy : s.twin.state = .gemm →
    (gemmBegin k (serveAll k t₀ (endedCmds s.ended)).1 s.twin.cur).1.state = .gemm ∧
      (gemmBegin k (serveAll k t₀ (endedCmds s.ended)).1 s.twin.cur).2 = [] ∧
      s.twin.still = (gemmBegin k (serveAll k t₀ (endedCmds s.ended)).1 s.twin.cur).1.still

theorem InOrder.start (hi : t.state = .idle) (hc : t.calPending = false)
    (hh : t.heap = fun _ => true) : InOrder k t ⟨t, [], []⟩ where
  heap := hh
  calPending := hc
  state := by simp [hi]
  ended := rfl
  idle := fun _ => rfl
  busy := fun h => absurd (hi.symm.trans h) (by simp)

/-- The moves of a run that submits commands and lets time pass. -/
def Move.served : Move P → Bool
  | .copy _ | .accept _ => true
  | m => m.own

theorem Move.own.served {m : Move P} (h : m.own = true) : m.served = true := by
  cases m <;> first | rfl | cases h

theorem copyMallocs_heap (hh : t.heap = fun _ => true) (c : Cmd P) :
    (copyMallocs t c).1 = true ∧ (copyMallocs t c).2 = t := by
  have htail : ({ t with heap := fun n => t.heap (n + 1) } : Twin Dev P) = t := by
    rw [hh]
    cases t
    cases hh
    rfl
  have h0 : t.heap 0 = true := by rw [hh]
  have hm : t.malloc = (true, t) := by
    unfold Twin.malloc
    rw [htail, h0]
  unfold copyMallocs
  simp only [hm]
  split <;> split <;> simp [hm]

/-- The turn of the next command, on the tile as the turns before it left it. -/
theorem InOrder.turn {t₀ : Twin Dev P} {s : History Dev P} (h : InOrder k t₀ s)
    (hi : s.twin.state = .idle) (c : Cmd P) :
    (gemmBegin k { s.twin with q := s.twin.q.tail } c).1.still =
        (gemmBegin k (serveAll k t₀ (endedCmds s.ended)).1 c).1.still ∧
      (gemmBegin k { s.twin with q := s.twin.q.tail } c).1.state =
        (gemmBegin k (serveAll k t₀ (endedCmds s.ended)).1 c).1.state ∧
      (gemmBegin k { s.twin with q := s.twin.q.tail } c).2 =
        (gemmBegin k (serveAll k t₀ (endedCmds s.ended)).1 c).2 := by
  have hs : Twin.still { s.twin with q := s.twin.q.tail } =
      (serveAll k t₀ (endedCmds s.ended)).1.still := h.idle hi
  exact gemmBegin_congr hs c

theorem gemmBegin_heap (hh : t.heap = fun _ => true) (c : Cmd P) :
    (gemmBegin k t c).1.heap = fun _ => true := by
  have htail : (fun n => t.heap (n + 1)) = fun _ => true := by
    funext n
    exact congrFun hh (n + 1)
  have ha : (gemmArith k t c).1.heap = fun _ => true := by
    rw [gemmArith_eq]
    split
    · exact hh
    split
    · exact hh
    split <;> exact htail
  unfold gemmBegin
  rcases hr : gemmArith k t c with ⟨u, r⟩
  rw [hr] at ha
  cases r <;> exact ha

theorem InOrder.step {t₀ : Twin Dev P} {s : History Dev P} (h : InOrder k t₀ s) {m : Move P}
    (hm : m.Ready k s.twin) (hs : m.served = true) : InOrder k t₀ (s.step k m) := by
  -- a move that moves the clock or the queue
  have hstill : (m.apply k s.twin).2 = [] → (m.apply k s.twin).1.still = s.twin.still →
      (m.apply k s.twin).1.cur = s.twin.cur → InOrder k t₀ (s.step k m) := by
    intro he ht hc
    have hended : (s.step k m).ended = s.ended := by
      show s.ended ++ (m.apply k s.twin).2 = s.ended
      rw [he, List.append_nil]
    have hstate := still_state ht
    have hheap : (m.apply k s.twin).1.still.heap = s.twin.still.heap := congrArg Twin.heap ht
    have hcal : (m.apply k s.twin).1.still.calPending = s.twin.still.calPending :=
      congrArg Twin.calPending ht
    refine ⟨hheap.trans h.heap, hcal.trans h.calPending, ?_, ?_, ?_, ?_⟩
    · show (m.apply k s.twin).1.state ≠ .cal
      rw [hstate]
      exact h.state
    · rw [hended]
      exact h.ended
    · intro hi
      rw [hended]
      exact ht.trans (h.idle (hstate ▸ hi))
    · intro hg
      show _ ∧ _ ∧ (m.apply k s.twin).1.still = _
      rw [hended, show (s.step k m).twin.cur = s.twin.cur from hc, ht]
      exact h.busy (hstate ▸ hg)
  cases m with
  | copy c =>
    have hc := (copyMallocs_heap h.heap c).2
    exact hstill rfl (congrArg Twin.still hc) (congrArg Twin.cur hc)
  | accept c => exact hstill rfl rfl rfl
  | pass cycles => exact hstill rfl rfl rfl
  | start c =>
    obtain ⟨hi, -, hq, hg⟩ := hm
    obtain ⟨ht, hst, he⟩ := h.turn hi c
    have hnone : (gemmBegin k { s.twin with q := s.twin.q.tail } c).2 = [] := by
      obtain ⟨-, -, _, _, _, -, heq⟩ := gemmBegin_started hg hi
      rw [heq]
    have hended : (s.step k (.start c)).ended = s.ended := by
      show s.ended ++ (gemmBegin k { s.twin with q := s.twin.q.tail } c).2 = s.ended
      rw [hnone, List.append_nil]
    refine ⟨gemmBegin_heap (t := { s.twin with q := s.twin.q.tail }) h.heap c, ?_, ?_, ?_, ?_, ?_⟩
    · show (gemmBegin k { s.twin with q := s.twin.q.tail } c).1.calPending = false
      obtain ⟨-, -, _, _, _, -, heq⟩ := gemmBegin_started hg hi
      rw [heq]
      exact h.calPending
    · show (gemmBegin k { s.twin with q := s.twin.q.tail } c).1.state ≠ .cal
      rw [hg]
      simp
    · rw [hended]
      exact h.ended
    · exact fun hidle => absurd (hg.symm.trans hidle) (by simp)
    · intro _
      have hcur : (s.step k (.start c)).twin.cur = c := by
        show (gemmBegin k { s.twin with q := s.twin.q.tail } c).1.cur = c
        obtain ⟨-, -, _, _, _, -, heq⟩ := gemmBegin_started hg hi
        rw [heq]
      rw [hended, hcur]
      exact ⟨hst.symm.trans hg, he.symm.trans hnone, ht⟩
  | refuse c =>
    obtain ⟨hi, -, hq, hr⟩ := hm
    obtain ⟨ht, hst, he⟩ := h.turn hi c
    obtain ⟨heap, dev, heq⟩ := gemmBegin_refused_any hr
    have hone : (gemmBegin k { s.twin with q := s.twin.q.tail } c).2 = [⟨c, .refused⟩] := by
      rw [heq]
    have hended : (s.step k (.refuse c)).ended = s.ended ++ [⟨c, .refused⟩] := by
      show s.ended ++ (gemmBegin k { s.twin with q := s.twin.q.tail } c).2 = _
      rw [hone]
    have hserve : serve k (serveAll k t₀ (endedCmds s.ended)).1 c =
        gemmBegin k (serveAll k t₀ (endedCmds s.ended)).1 c := by
      unfold serve
      dsimp only
      rw [if_neg]
      rw [← hst, hr]
      simp
    have hcmds : endedCmds (s.step k (.refuse c)).ended = endedCmds s.ended ++ [c] := by
      rw [hended, endedCmds_append]
      rfl
    refine ⟨gemmBegin_heap (t := { s.twin with q := s.twin.q.tail }) h.heap c, ?_, ?_, ?_, ?_, ?_⟩
    · show (gemmBegin k { s.twin with q := s.twin.q.tail } c).1.calPending = false
      rw [heq]
      exact h.calPending
    · show (gemmBegin k { s.twin with q := s.twin.q.tail } c).1.state ≠ .cal
      rw [hr]
      simp
    · rw [hcmds, serveAll_snoc, hserve, ← he, hone, hended, ← h.ended]
    · intro _
      rw [hcmds, serveAll_snoc, hserve]
      exact ht
    · exact fun hg => absurd (hr.symm.trans hg) (by simp)
  | finish =>
    have hg : s.twin.state = .gemm := hm.1
    obtain ⟨hst, hnone, ht⟩ := h.busy hg
    obtain ⟨hend, hes⟩ := gemmEnd_congr ht
    have hserve : serve k (serveAll k t₀ (endedCmds s.ended)).1 s.twin.cur =
        ((gemmEnd (gemmBegin k (serveAll k t₀ (endedCmds s.ended)).1 s.twin.cur).1).1,
          (gemmEnd s.twin).2) := by
      unfold serve
      dsimp only
      rw [if_pos hst, hnone, List.nil_append, ← hes]
    have hended : (s.step k .finish).ended = s.ended ++ (gemmEnd s.twin).2 := rfl
    have hcmds : endedCmds (s.step k .finish).ended = endedCmds s.ended ++ [s.twin.cur] := by
      rw [hended, endedCmds_append]
      rfl
    have hidle : (gemmEnd s.twin).1.state = .idle := rfl
    refine ⟨?_, ?_, ?_, ?_, ?_, ?_⟩
    · show (gemmEnd s.twin).1.heap = _
      unfold gemmEnd
      dsimp only
      split <;> exact h.heap
    · show (gemmEnd s.twin).1.calPending = false
      unfold gemmEnd
      dsimp only
      split <;> exact h.calPending
    · show (gemmEnd s.twin).1.state ≠ .cal
      rw [hidle]
      simp
    · rw [hcmds, serveAll_snoc, hserve, hended, ← h.ended]
    · intro _
      rw [hcmds, serveAll_snoc, hserve]
      exact hend
    · exact fun hg => absurd (hidle.symm.trans hg) (by simp)
  | calBegin => exact absurd (h.calPending.symm.trans hm.2) (by simp)
  | calEnd r => exact absurd hm.1 h.state
  | store | calNow | latch | age | reset => cases hs

/-! ## Runs that submit commands and let time pass -/

/-- The operations of such a run. -/
def Op.serves : Op P → Bool
  | .submit _ | .run _ => true
  | _ => false

theorem Op.moves_served {o : Op P} (ho : o.serves = true) (t : Twin Dev P) :
    ∀ m ∈ o.moves k t, m.served = true := by
  cases o with
  | run cycles => exact fun m hm => Move.own.served (loopMoves_own _ _ _ m hm)
  | submit c =>
    show ∀ m ∈ submitMoves k t c, m.served = true
    intro m hm
    unfold submitMoves at hm
    split at hm
    · cases hm
    split at hm
    · cases hm
    rcases List.mem_cons.mp hm with rfl | hm
    · rfl
    split at hm
    · cases hm
    split at hm
    · rcases List.mem_cons.mp hm with rfl | hm
      · rfl
      · exact Move.own.served (queuedMoves_own _ _ m hm)
    · rw [List.mem_singleton.mp hm]
      rfl
  | write32 | read32 | age | reset => cases ho

theorem InOrder.op {t₀ : Twin Dev P} {s : History Dev P} (h : InOrder k t₀ s) {o : Op P}
    (ho : o.serves = true) : InOrder k t₀ (opStep k s o) := by
  have hready := (o.moves_spec (k := k) s.twin).ready s rfl
  have hserved : Along (History.step k) (fun _ m => m.served = true) s (o.moves k s.twin) :=
    along_of_forall (fun m hm _ => Op.moves_served ho s.twin m hm) s
  exact invariant (I := InOrder k t₀) (fun _ _ hs hm => hs.step hm.1 hm.2) (hready.and hserved) h

theorem Conserved.op {s : History Dev P} (h : Conserved s) (o : Op P) : Conserved (opStep k s o) :=
  invariant (I := Conserved) (fun _ _ hs hm => hs.step hm) ((o.moves_spec (k := k) s.twin).ready s rfl) h

theorem Conserved.start (hi : t.state = .idle) (hq : t.q = []) :
    Conserved (⟨t, [], []⟩ : History Dev P) where
  accounts := by
    rw [accepted_of_not_gemm (by simp [hi]), hq]
    rfl
  turns := List.nil_sublist _
  cal := by
    show false = true ↔ t.state = .cal
    simp [hi]

/-- What an operation adds to the accepted commands. -/
theorem opStep_accepted (s : History Dev P) (o : Op P) :
    acceptedCmds (opStep k s o).moves = acceptedCmds s.moves ++ opsAccepted k s.twin [o] := by
  unfold opStep
  rw [after_moves, acceptedCmds_append, ← acceptedCmds_opsMoves]
  simp [opsMoves]

end Grxcp.PtaTwin
