import Grxcp.Pta.TwinLink

/-!
# What a failed call leaves in the twin

A call of `pta_chiplet_gemm` through the link hands the twin the address of the caller's buffer and
of a local variable of its own, and gives up waiting after `kMaxPolls` looks. Nothing takes the
command back then. So a call that fails leaves nothing that refers to either exactly when no such
command outlasts the looks: not the call's own, and not one that was there before.
-/

namespace Grxcp.PtaTwin

variable {Dev P : Type} {k : TileKernel Dev} {t : Twin Dev P}

/-! ## Whose memory a command refers to -/

/-- The addresses a command carries. -/
def Cmd.pointers (c : Cmd P) : List P :=
  c.C.toList ++ c.status.toList ++ c.sats.toList ++ c.clips.toList

/-- Where a store goes. -/
def Store.target : Store P → P
  | .result p _ => p
  | .sats p _ => p
  | .clips p _ => p
  | .status p _ => p

/-- The command has an address in this memory. -/
def Cmd.Refers (own : Set P) (c : Cmd P) : Prop :=
  ∃ p ∈ c.pointers, p ∈ own

/-- An operation that brings no address in this memory. -/
def Op.Spares (own : Set P) : Op P → Prop
  | .submit c => ¬c.Refers own
  | _ => True

/-- A command's end stores where the command says. -/
theorem Ending.stores_target {e : Ending P} {st : Store P} (h : st ∈ e.stores) :
    st.target ∈ e.cmd.pointers := by
  obtain ⟨c, how⟩ := e
  unfold Cmd.pointers
  unfold Ending.stores at h
  rcases List.mem_append.mp h with h | h
  · cases how with
    | done out sats clips =>
      dsimp only at h
      rcases List.mem_append.mp h with h | h
      · rcases List.mem_append.mp h with h | h
        · split at h
          · obtain ⟨p, hp, rfl⟩ := List.mem_map.mp (by simpa using h : st ∈ c.C.toList.map _)
            simp [Store.target, hp]
          · cases h
        · obtain ⟨p, hp, rfl⟩ := List.mem_map.mp (by simpa using h : st ∈ c.sats.toList.map _)
          simp [Store.target, hp]
      · obtain ⟨p, hp, rfl⟩ := List.mem_map.mp (by simpa using h : st ∈ c.clips.toList.map _)
        simp [Store.target, hp]
    | refused => cases h
    | lost => cases h
  · obtain ⟨p, hp, rfl⟩ := List.mem_map.mp (by simpa using h : st ∈ c.status.toList.map _)
    simp [Store.target, hp]

/-- The twin's copy of a command keeps its addresses. -/
theorem copyCmd_refers (own : Set P) (c : Cmd P) : (copyCmd c).Refers own ↔ c.Refers own :=
  Iff.rfl

variable {own : Set P}

theorem Op.apply_spares (h : ∀ c ∈ PtaTwin.accepted t, ¬c.Refers own) {o : Op P}
    (ho : o.Spares own) :
    (∀ e ∈ (o.apply k t).2, ¬e.cmd.Refers own) ∧
      ∀ c ∈ PtaTwin.accepted (o.apply k t).1, ¬c.Refers own := by
  have hall : ∀ c ∈ endedCmds (o.apply k t).2 ++ PtaTwin.accepted (o.apply k t).1,
      ¬c.Refers own := by
    rw [← o.apply_conserves]
    intro c hc
    rcases List.mem_append.mp hc with hc | hc
    · exact h c hc
    · cases o with
      | submit c' =>
        have hc' : c ∈ (if (PtaTwin.submit k t c').1 then [copyCmd c'] else []) := by
          simpa [opsAccepted] using hc
        split at hc'
        · rw [List.mem_singleton.mp hc', copyCmd_refers]
          exact ho
        · cases hc'
      | _ => cases hc
  exact ⟨fun e he => hall _ (List.mem_append_left _ (List.mem_map_of_mem he)),
    fun c hc => hall c (List.mem_append_right _ hc)⟩

/-- A twin with nothing pending that refers to this memory never stores there, whatever is done to
it by operations that do not name it. -/
theorem opsApply_spares (os : List (Op P)) :
    ∀ t : Twin Dev P, (∀ c ∈ PtaTwin.accepted t, ¬c.Refers own) → (∀ o ∈ os, o.Spares own) →
      ∀ e ∈ (opsApply k t os).2, ∀ st ∈ e.stores, st.target ∉ own := by
  induction os with
  | nil => exact fun _ _ _ _ he => by cases he
  | cons o os ih =>
    intro t h hos e he st hst
    obtain ⟨hnow, hnext⟩ := o.apply_spares (k := k) h (hos o List.mem_cons_self)
    rcases List.mem_append.mp he with he | he
    · exact fun hmem => hnow e he ⟨_, e.stores_target hst, hmem⟩
    · exact ih _ hnext (fun o' ho' => hos o' (List.mem_cons_of_mem _ ho')) e he st hst

end Grxcp.PtaTwin

namespace Grxcp.PtaChiplet

open PtaTwin

variable {Dev P : Type} [DecidableEq P] {k : TileKernel Dev} {cost : U64}

/-! ## The call -/

/-- A call that fails leaves no pending command that refers to this memory, and so nothing that is
done to the twin afterwards, short of handing it such a command, stores there. -/
def LeavesNothing (k : TileKernel Dev) (own : Set P) (r : Driver (Site Dev P) P × Bool) : Prop :=
  r.2 = false →
    (∀ c ∈ accepted r.1.env.twin, ¬c.Refers own) ∧
      ∀ os : List (Op P), (∀ o ∈ os, o.Spares own) →
        ∀ e ∈ (opsApply k r.1.env.twin os).2, ∀ st ∈ e.stores, st.target ∉ own

/-- Nothing that refers to this memory outlasts the looks. A call that is turned away does not look.
One that does not find the tile free leaves what is still pending after `kMaxPolls` looks. And one
that hands its command over leaves that command if the tile takes it and needs more time than the
looks that follow let pass. -/
def EndsInTime (k : TileKernel Dev) (cost : U64) (own : Set P) (linked : Bool) (t : Twin Dev P)
    (c : Cmd P) : Prop :=
  let free := polled k cost kMaxPolls t
  if linked = false then ∀ c' ∈ accepted t, ¬c'.Refers own
  else if free.state ≠ .idle then ∀ c' ∈ accepted free, ¬c'.Refers own
  else
    (PtaTwin.submit k free c).2.1.state = .gemm →
      (gemmCycles free.build free.regs c).toNat ≤ kMaxPolls * cost.toNat

variable {own : Set P} {d : Driver (Site Dev P) P}

theorem leavesNothing_of {r : Driver (Site Dev P) P × Bool}
    (h : ∀ c ∈ accepted r.1.env.twin, ¬c.Refers own) : LeavesNothing k own r :=
  fun _ => ⟨h, fun os hos => opsApply_spares os _ h hos⟩

/-- A read of any word but the status moves no command. -/
theorem rd_accepted (hr : d.dev.read32 = some (Site.read32 k cost)) {off : U32}
    (ho : off ≠ ptaStatus) :
    (d.rd off).1.dev = d.dev ∧ accepted (d.rd off).1.env.twin = accepted d.env.twin := by
  unfold Driver.rd
  rw [hr]
  refine ⟨rfl, ?_⟩
  dsimp only
  unfold Site.read32
  rw [if_neg ho]
  exact read32_accepted _ _

theorem linkEnded_accepted (hr : d.dev.read32 = some (Site.read32 k cost)) (st : CmdStatus) :
    accepted (d.linkEnded st).1.env.twin = accepted d.env.twin := by
  cases st with
  | refused =>
    obtain ⟨hdev, himpair⟩ := rd_accepted hr (show ptaImpair ≠ ptaStatus by decide)
    obtain ⟨-, hcaps⟩ := rd_accepted (hdev ▸ hr) (show ptaCaps1 ≠ ptaStatus by decide)
    exact hcaps.trans himpair
  | _ => rfl

/-- A submission to a free tile: the tile is still free and nothing is pending, or it holds the
command. -/
theorem submit_free {t : Twin Dev P} (hs : Settled t) (hi : t.state = .idle) (c : Cmd P) :
    (PtaTwin.submit k t c).2.1.state = .idle ∨
      ((PtaTwin.submit k t c).1 = true ∧ (PtaTwin.submit k t c).2.1.state = .gemm ∧
        (PtaTwin.submit k t c).2.1.q = [] ∧ (PtaTwin.submit k t c).2.1.calPending = false ∧
        (PtaTwin.submit k t c).2.1.cur = copyCmd c ∧
        (PtaTwin.submit k t c).2.1.left = gemmCycles t.build t.regs c) := by
  obtain ⟨hq, hp⟩ := hs hi
  have hcopy := copyMallocs_sameQueue t c
  have hsame : (copyMallocs t c).2.build = t.build ∧ (copyMallocs t c).2.regs = t.regs := by
    unfold copyMallocs Twin.malloc
    dsimp only
    constructor <;>
    · repeat' split
      all_goals rfl
  unfold PtaTwin.submit
  split
  · exact .inl hi
  split
  · exact .inl hi
  rcases hcm : copyMallocs t c with ⟨ok, u⟩
  rw [hcm] at hcopy hsame
  cases ok with
  | false => exact .inl (hcopy.state.trans hi)
  | true =>
    dsimp only at hcopy hsame ⊢
    have hui : u.state = .idle := hcopy.state.trans hi
    have hup : u.calPending = false := hcopy.calPending.trans hp
    rw [if_pos ⟨hui, by simp [hup], hcopy.q.trans hq⟩]
    obtain ⟨-, hst, -⟩ | ⟨-, hst, hcur, hq', hp'⟩ := gemmBegin_cases k (copyCmd c) hui
    · exact .inl hst
    · refine .inr ⟨rfl, hst, hq'.trans (hcopy.q.trans hq), hp'.trans hup, hcur, ?_⟩
      obtain ⟨-, -, sats, sums, dev, -, heq⟩ := gemmBegin_started hst hui
      rw [heq]
      show atLeastOne (tilesOf u.build (copyCmd c) * u.regs.tw.zeroExtend 64 +
        shotsOf u.build (copyCmd c) * u.regs.ts.zeroExtend 64) = _
      rw [hsame.1, hsame.2]
      rfl

/-- The call from the moment its command was taken: a free tile has nothing pending, and a command
that holds it outlasts the looks or does not. -/
theorem linkWait_leaves (hr : d.dev.read32 = some (Site.read32 k cost)) (hs : Settled d.env.twin)
    (p : P) (hheld : d.env.twin.state ≠ .idle →
      d.env.twin.state = .gemm ∧ d.env.twin.q = [] ∧ d.env.twin.calPending = false ∧
        d.env.twin.left ≠ 0 ∧ d.env.twin.cur.Refers own) :
    LeavesNothing k own (d.linkWait siteHost p) ↔
      (d.env.twin.state = .gemm → d.env.twin.left.toNat ≤ kMaxPolls * cost.toNat) := by
  have hfree : d.env.twin.state = .idle ∨ d.env.twin.left.toNat ≤ kMaxPolls * cost.toNat →
      (polled k cost kMaxPolls d.env.twin).state = .idle := by
    intro h
    by_cases hi : d.env.twin.state = .idle
    · obtain ⟨now, hnow⟩ := polled_idle (k := k) (c := cost) kMaxPolls d.env.twin hi
      rw [hnow]
      exact hi
    · obtain ⟨hg, hq, hp, h0, -⟩ := hheld hi
      obtain ⟨now, hnow⟩ := polled_ends (k := k) (c := cost) kMaxPolls d.env.twin hg hq hp h0
        (h.resolve_left hi)
      rw [hnow]
      exact gemmEnd_state d.env.twin
  unfold Driver.linkWait
  obtain ⟨hdev, ⟨hseen, m, hm, heq, hidle⟩ | ⟨hseen, heq, hall⟩⟩ := waitIdle_spec kMaxPolls d hr hs
  all_goals
    rcases hw : d.waitIdle kMaxPolls with ⟨d', seen⟩
    rw [hw] at hdev hseen heq
    dsimp only at hdev hseen heq
    subst hseen
  · -- a look saw the tile free
    refine iff_of_true (leavesNothing_of fun c hc => ?_) fun hg => ?_
    · rw [linkEnded_accepted (hdev ▸ hr), heq, (polled_settled m _ hs).accepted hidle] at hc
      cases hc
    · by_contra hlong
      have hmul : m * cost.toNat ≤ kMaxPolls * cost.toNat := Nat.mul_le_mul_right _ hm
      obtain ⟨now, left, hp, -⟩ := polled_short (k := k) (c := cost) m d.env.twin (by simp [hg])
        (by omega)
      rw [hp] at hidle
      exact absurd (hg.symm.trans hidle) (by simp)
  · -- none did
    have hbusy := hall kMaxPolls le_rfl (by decide)
    have hg : d.env.twin.state ≠ .idle := fun h => hbusy (hfree (.inl h))
    obtain ⟨hgemm, hq, -, -, hcur⟩ := hheld hg
    have hlong : ¬d.env.twin.left.toNat ≤ kMaxPolls * cost.toNat := fun h => hbusy (hfree (.inr h))
    refine iff_of_false (fun h => ?_) fun h => hlong (h hgemm)
    obtain ⟨now, left, hp, -⟩ := polled_short (k := k) (c := cost) kMaxPolls d.env.twin hg
      (Nat.lt_of_not_le hlong)
    refine (h rfl).1 d.env.twin.cur ?_ hcur
    show _ ∈ accepted d'.env.twin
    rw [heq, hp]
    show _ ∈ accepted d.env.twin
    rw [accepted_of_gemm hgemm]
    exact List.mem_cons_self

/-- The call, from the link on. -/
theorem linkGemm_leaves (hr : d.dev.read32 = some (Site.read32 k cost)) (hs : Settled d.env.twin)
    {p : P} (hp : p ∈ own) (c : Call P) :
    LeavesNothing k own (d.linkGemm siteHost (Site.submit k) p c) ↔
      EndsInTime k cost own true d.env.twin (c.cmd p) := by
  unfold EndsInTime Driver.linkGemm
  rw [if_neg (by simp)]
  obtain ⟨hdev, ⟨hseen, m, hm, heq, hfree⟩ | ⟨hseen, heq, hall⟩⟩ := waitIdle_spec kMaxPolls d hr hs
  all_goals
    rcases hw : d.waitIdle kMaxPolls with ⟨d', seen⟩
    rw [hw] at hdev hseen heq
    dsimp only at hdev hseen heq ⊢
    subst hseen
  · -- the tile is free, and later looks would only have moved its clock
    obtain ⟨now, hnow⟩ : ∃ now, polled k cost kMaxPolls d.env.twin =
        { polled k cost m d.env.twin with now := now } := by
      obtain ⟨n, hn⟩ := Nat.exists_eq_add_of_le hm
      rw [hn, polled_add]
      exact polled_idle n _ hfree
    rw [hnow, if_neg (by simpa using hfree), submit_now]
    have hset := polled_settled (k := k) (c := cost) m _ hs
    rw [← heq] at hset hfree ⊢
    have hcases := submit_free (k := k) hset hfree (c.cmd p)
    have hsubset := submit_settled k hset (c.cmd p)
    dsimp only
    generalize hsub : Site.submit k (siteHost.setStatus d'.env p .pending) (c.cmd p) = r
    obtain ⟨env, taken⟩ := r
    have henv : env.twin = (PtaTwin.submit k d'.env.twin (c.cmd p)).2.1 := by
      rw [← congrArg (fun r => r.1.twin) hsub]
      exact moved_twin _ _
    have htaken : taken = (PtaTwin.submit k d'.env.twin (c.cmd p)).1 :=
      (congrArg Prod.snd hsub).symm
    rw [← henv] at hcases hsubset ⊢
    rw [← htaken] at hcases
    cases taken with
    | false =>
      have hi : env.twin.state = .idle := hcases.resolve_right fun h => by simpa using h.1
      refine iff_of_true (leavesNothing_of fun c' hc' => ?_) fun h => by simp [h] at hi
      have hnone : c' ∈ accepted env.twin := hc'
      rw [hsubset.accepted hi] at hnone
      cases hnone
    | true =>
      have hleft : env.twin.state = .gemm →
          env.twin.left = gemmCycles d'.env.twin.build d'.env.twin.regs (c.cmd p) := fun hg =>
        (hcases.resolve_left fun h => by simp [h] at hg).2.2.2.2.2
      dsimp only
      have hread : ({ d' with env := env } : Driver (Site Dev P) P).dev.read32 =
          some (Site.read32 k cost) := hdev ▸ hr
      rw [linkWait_leaves hread hsubset p]
      · exact ⟨fun h hg => hleft hg ▸ h hg, fun h hg => hleft hg ▸ h hg⟩
      · intro hb
        obtain ⟨-, hg, hq, hcal, hcur, hl⟩ := hcases.resolve_left hb
        refine ⟨hg, hq, hcal, hl ▸ gemmCycles_ne_zero _ _ _, ?_⟩
        show env.twin.cur.Refers own
        rw [hcur, copyCmd_refers]
        exact ⟨p, by simp [Cmd.pointers, Call.cmd], hp⟩
  · -- the tile was never free
    rw [if_pos (by simpa using hall kMaxPolls le_rfl (by decide)), ← heq]
    exact ⟨fun h => (h rfl).1, fun h => leavesNothing_of h⟩

/-- A call on a twin between its operations. -/
theorem gemm_leaves {t : Twin Dev P} (ht : Settled t) (status : P → CmdStatus)
    (result : P → List ℤ) (window link present : Bool) {p : P} (hp : p ∈ own) (c : Call P) :
    LeavesNothing k own
        (Driver.gemm siteHost ⟨linkDevice k cost window link present, ⟨t, status, result⟩⟩ p c) ↔
      EndsInTime k cost own (window && present && link) t (c.cmd p) := by
  have haway : ∀ (d : Driver (Site Dev P) P) error, d.env.twin = t →
      (LeavesNothing k own (d.fail error) ↔ ∀ c' ∈ accepted t, ¬c'.Refers own) := by
    rintro d error rfl
    exact ⟨fun h => (h rfl).1, fun h => leavesNothing_of h⟩
  unfold Driver.gemm linkDevice Device.hasWindow
  cases window with
  | false => exact haway _ _ rfl
  | true =>
    cases present with
    | false => exact haway _ _ rfl
    | true =>
      cases link with
      | false => exact haway _ _ rfl
      | true => exact linkGemm_leaves rfl ht hp c

/-- A call of `pta_chiplet_gemm` on any reachable twin. If it fails, no pending command refers to the
caller's buffer or to the call's own variable, and nothing that happens to the twin later stores
there, if and only if every command that refers to them ends in time. -/
theorem failed_gemm_leaves (k : TileKernel Dev) (cost : U64) (b : Build) (dev : Dev)
    (heap : ℕ → Bool) (os : List (Op P)) (status : P → CmdStatus) (result : P → List ℤ)
    (window link present : Bool) (buffer : Set P) (p : P) (c : Call P) :
    let t := (opsApply k (History.new b dev heap : History Dev P).twin os).1
    let d : Driver (Site Dev P) P := ⟨linkDevice k cost window link present, ⟨t, status, result⟩⟩
    LeavesNothing k (insert p buffer) (d.gemm siteHost p c) ↔
      EndsInTime k cost (insert p buffer) (window && present && link) t (c.cmd p) :=
  gemm_leaves (opsApply_settled os _ fun _ => ⟨rfl, rfl⟩) status result window link present
    (Set.mem_insert p buffer) c

/-! ## A command that outlasts the looks -/

/-- A tile of one element that takes as long to program as the register allows. -/
def slowTwin : Twin Unit ℕ :=
  (opsApply exactKernel
    (History.new { rows := 1, cols := 1, dinW := 8, accW := 32, queueDepth := 1, actHold := 0 } ()
      fun _ => true).twin [.write32 0x068 0xFFFFFFFF]).1

/-- A row of seventeen results, so seventeen tiles. -/
def wideCall : Call ℕ :=
  { bank := 0, M := 1, N := 17, K := 1, A := some [1], B := some (List.replicate 17 1), C := some 0 }

/-- With `2 ^ 16` cycles to a look, as the tests have it, the looks let `2 ^ 36` cycles pass, and
seventeen tiles take longer. The call fails, and its command is still pending. -/
theorem failed_gemm_leaves_wide :
    ¬LeavesNothing exactKernel {1, 0}
      (Driver.gemm siteHost
        ⟨linkDevice exactKernel (1 <<< 16) true true true, ⟨slowTwin, fun _ => .pending, fun _ => []⟩⟩
        1 wideCall) := by
  have hset : Settled slowTwin := opsApply_settled _ _ fun _ => ⟨rfl, rfl⟩
  rw [gemm_leaves hset _ _ _ _ _ (by simp)]
  obtain ⟨now, hnow⟩ := polled_idle (k := exactKernel) (c := 1 <<< 16) kMaxPolls slowTwin rfl
  unfold EndsInTime
  rw [if_neg (by decide), hnow, if_neg (fun h => h rfl), submit_now]
  intro h
  have hlong : kMaxPolls * (1 <<< 16 : U64).toNat < (gemmCycles slowTwin.build slowTwin.regs
      (wideCall.cmd 1)).toNat := by decide
  exact Nat.not_le.mpr hlong (h rfl)

end Grxcp.PtaChiplet
