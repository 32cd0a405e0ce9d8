import Grxcp.Pta.InOrder

/-!
# Layers chained on the chiplet

A network's layers can run back to back, each holding its output on the chiplet for the next one
(`HOLD`, `FROM_HELD`), or one by one, with every output read back and submitted as the next operand.
Both hosts are a `Plan`, and how they spread their submissions over time is a list of `Deed`s: the
chained layers may be queued ahead or submitted one at a time.

The two are compared layer by layer (`Level`). What the chained tile holds is what the other host has
read back, so both layers are one call of the model.
-/

namespace Grxcp.PtaTwin

open Runs

variable {Dev P : Type}

/-! ## A host that feeds the twin -/

/-- The command a host submits next, from the number it has had accepted and how they ended so far. -/
abbrev Plan (P : Type) := ℕ → List (Ending P) → Option (Cmd P)

/-- What a host does: submit its next command, or let the twin run. -/
inductive Deed
  | submit
  | run (cycles : U64)

/-- The twin's history after it. A command that is not accepted stays the host's next. -/
def Plan.step (k : TileKernel Dev) (p : Plan P) (s : History Dev P) : Deed → History Dev P
  | .submit =>
      match p (acceptedCmds s.moves).length s.ended with
      | some c => opStep k s (.submit c)
      | none => s
  | .run cycles => opStep k s (.run cycles)

/-- Everything has ended, and what the host would submit next is not a command the twin takes. -/
def Plan.Finished (p : Plan P) (s : History Dev P) : Prop :=
  s.twin.state = .idle ∧
    ∀ c, p (acceptedCmds s.moves).length s.ended = some c → submittable c = false

/-- A run of a host from `t₀`: the tile serves what the host has planned. -/
structure Fed (k : TileKernel Dev) (p : Plan P) (t₀ : Twin Dev P) (s : History Dev P) : Prop where
  order : InOrder k t₀ s
  conserved : Conserved s
  settled : Settled s.twin
  planned : ∀ i c, (acceptedCmds s.moves)[i]? = some c →
    ∃ e raw, e ≤ s.ended.length ∧ p i (s.ended.take e) = some raw ∧ submittable raw = true ∧
      c = copyCmd raw

variable {k : TileKernel Dev} {p : Plan P} {t₀ : Twin Dev P} {s : History Dev P}

theorem Fed.start (hi : t₀.state = .idle) (hq : t₀.q = []) (hc : t₀.calPending = false)
    (hh : t₀.heap = fun _ => true) : Fed k p t₀ ⟨t₀, [], []⟩ where
  order := .start hi hc hh
  conserved := .start hi hq
  settled := fun _ => ⟨hq, hc⟩
  planned := fun _ _ h => by cases h

/-- What an operation adds to the commands planned. -/
theorem Fed.op (h : Fed k p t₀ s) {o : Op P} (ho : o.serves = true)
    (hset : Settled (o.apply k s.twin).1)
    (hnew : ∀ c ∈ opsAccepted k s.twin [o], ∃ raw,
      p (acceptedCmds s.moves).length s.ended = some raw ∧ submittable raw = true ∧ c = copyCmd raw)
    (hone : (opsAccepted k s.twin [o]).length ≤ 1) : Fed k p t₀ (opStep k s o) where
  order := h.order.op ho
  conserved := h.conserved.op o
  settled := by
    rw [(opStep_twin s o).1]
    exact hset
  planned := by
    intro i c hi
    rw [opStep_accepted] at hi
    have hlen : s.ended.length ≤ (opStep k s o).ended.length := by
      rw [(opStep_twin s o).2, List.length_append]
      exact Nat.le_add_right _ _
    have htake : ∀ e ≤ s.ended.length, (opStep k s o).ended.take e = s.ended.take e := by
      intro e he
      rw [(opStep_twin s o).2, List.take_append_of_le_length he]
    by_cases hlt : i < (acceptedCmds s.moves).length
    · rw [List.getElem?_append_left hlt] at hi
      obtain ⟨e, raw, he, hp, hrest⟩ := h.planned i c hi
      exact ⟨e, raw, he.trans hlen, (htake e he).symm ▸ hp, hrest⟩
    · rw [List.getElem?_append_right (by omega)] at hi
      -- the one command the operation accepts is the host's next
      have hi0 : i - (acceptedCmds s.moves).length = 0 := by
        have := (List.getElem?_eq_some_iff.mp hi).1
        omega
      have hieq : i = (acceptedCmds s.moves).length := by omega
      obtain ⟨raw, hp, hrest⟩ := hnew c (List.mem_of_getElem? hi)
      refine ⟨s.ended.length, raw, hlen, ?_, hrest⟩
      rw [htake _ (le_refl _), List.take_length, hieq]
      exact hp

theorem submit_true {t : Twin Dev P} {c : Cmd P} (h : (submit k t c).1 = true) :
    submittable c = true := by
  unfold submit at h
  split at h
  · cases h
  · next hs => simpa using hs

theorem Fed.step (h : Fed k p t₀ s) (d : Deed) : Fed k p t₀ (p.step k s d) := by
  cases d with
  | run cycles =>
    have hnone : opsAccepted k s.twin [.run cycles] = [] := rfl
    refine h.op rfl (run_settled k h.settled cycles) ?_ (by simp [hnone])
    rw [hnone]
    simp
  | submit =>
    unfold Plan.step
    dsimp only
    split
    · next c hp =>
      have hone : opsAccepted k s.twin [.submit c] =
          if (submit k s.twin c).1 then [copyCmd c] else [] := by simp [opsAccepted]
      refine h.op rfl (submit_settled k h.settled c) ?_ ?_
      · rw [hone]
        split
        · next hs =>
          intro c' hc'
          rw [List.mem_singleton.mp hc']
          exact ⟨c, hp, submit_true hs, rfl⟩
        · simp
      · rw [hone]
        split <;> simp
    · exact h

/-- When the host has finished, the run is the turns of the commands it had accepted. -/
theorem Fed.finished (h : Fed k p t₀ s) (hi : s.twin.state = .idle) :
    endedCmds s.ended = acceptedCmds s.moves ∧
      s.ended = (serveAll k t₀ (acceptedCmds s.moves)).2 ∧
      s.twin.still = (serveAll k t₀ (acceptedCmds s.moves)).1.still := by
  have hq := (h.settled hi).1
  have hcmds : endedCmds s.ended = acceptedCmds s.moves := by
    rw [h.conserved.accounts, accepted_of_not_gemm (by simp [hi]), hq, List.append_nil]
  refine ⟨hcmds, ?_, ?_⟩
  · rw [← hcmds]
    exact h.order.ended
  · rw [← hcmds]
    exact h.order.idle hi

/-! ## The two hosts -/

/-- What the host chooses for one layer. `spareA` and `spareC` are what it passes for `A` and `C` where
the command has no use for them. -/
structure Layer (P : Type) where
  bank : ℤ
  N : ℤ
  K : ℤ
  B : List ℤ
  bias : Option (List ℤ)
  shift : ℤ
  bits : ℤ
  C : P
  status : Option P
  sats : Option P
  clips : Option P
  spareA : Option (List ℤ)
  spareC : Option P

/-- A layer's command. -/
def Layer.cmd (l : Layer P) (M : ℤ) (flags : U32) (A : Option (List ℤ)) (C : Option P) : Cmd P :=
  { bank := l.bank, M, N := l.N, K := l.K, A, B := some l.B, C, status := l.status, sats := l.sats,
    flags, actShift := l.shift, actBits := l.bits, bias := l.bias, clips := l.clips }

/-- The flags of layer `i` of `n`: the activation stage for all but the last, and for that if `act`. -/
def layerFlags (act : Bool) (n i : ℕ) : U32 :=
  if i + 1 < n ∨ act then cmdAct else 0

/-- The flags of a chained layer: its output stays for the next, its operand is the one before it's. -/
def chainFlags (act : Bool) (n i : ℕ) : U32 :=
  layerFlags act n i ||| (if i + 1 < n then cmdHold else 0) ||| (if 0 < i then cmdFromHeld else 0)

/-- A network: the rows of its input, the input, its layers, and whether the last one activates. -/
structure Network (P : Type) where
  M : ℤ
  A : List ℤ
  layers : List (Layer P)
  act : Bool

/-- The host that chains its layers. -/
def Network.chained (w : Network P) : Plan P := fun i _ =>
  w.layers[i]?.map fun l =>
    l.cmd w.M (chainFlags w.act w.layers.length i) (if i = 0 then some w.A else l.spareA)
      (if i + 1 < w.layers.length then l.spareC else some l.C)

/-- What an ended command left in `C`. -/
def readBack (e : Ending P) : Option (List ℤ) :=
  e.stores.findSome? fun
    | .result _ out => some out
    | _ => none

/-- The operand of the next layer: the input, or the last layer's output read back. -/
def Network.operand (w : Network P) (es : List (Ending P)) : Option (List ℤ) :=
  match es.getLast? with
  | none => some w.A
  | some e => readBack e

/-- The host that runs its layers one by one. -/
def Network.apart (w : Network P) : Plan P := fun i es =>
  if es.length = i then
    (w.operand es).bind fun A =>
      w.layers[i]?.map fun l => l.cmd w.M (layerFlags w.act w.layers.length i) (some A) (some l.C)
  else none

/-- Each layer takes as many columns as the one before it puts out. -/
def Network.Composes (w : Network P) : Prop :=
  ∀ i l l', w.layers[i]? = some l → w.layers[i + 1]? = some l' → l'.K = l.N

/-- The outputs between two layers fit what the stage can hold. -/
def Network.Fits (w : Network P) (b : Build) : Prop :=
  ∀ i l, i + 1 < w.layers.length → w.layers[i]? = some l → w.M * l.N ≤ b.actHold

/-- The number of layers done before the first that was not. -/
def layersDone (es : List (Ending P)) : ℕ :=
  (es.takeWhile fun e => e.how.status = .done).length

/-- `pta_gemm` fills its `M × N` buffer. -/
def TileKernel.Sized (k : TileKernel Dev) : Prop :=
  ∀ cfg tile dev bank M N K A B sats sums,
    (k.gemm cfg tile dev bank M N K A B).2 = some (sats, sums) → sums.length = (M * N).toNat

/-! ## One layer -/

variable {w : Network P} {act : Bool} {n i : ℕ} {l : Layer P} {t u : Twin Dev P}

theorem chainFlags_act : chainFlags act n i &&& cmdAct = layerFlags act n i &&& cmdAct := by
  unfold chainFlags layerFlags
  split_ifs <;> rfl

theorem chainFlags_hold : chainFlags act n i &&& cmdHold ≠ 0 ↔ i + 1 < n := by
  unfold chainFlags layerFlags
  split_ifs <;> simp [cmdAct, cmdHold, cmdFromHeld] <;> omega

theorem chainFlags_fromHeld : chainFlags act n i &&& cmdFromHeld ≠ 0 ↔ 0 < i := by
  unfold chainFlags layerFlags
  split_ifs <;> simp [cmdAct, cmdHold, cmdFromHeld] <;> omega

theorem layerFlags_fromHeld : layerFlags act n i &&& cmdFromHeld = 0 := by
  unfold layerFlags
  split_ifs <;> rfl

theorem layerFlags_hold : layerFlags act n i &&& cmdHold = 0 := by
  unfold layerFlags
  split_ifs <;> rfl

/-- The stage judges the two commands of a layer alike, if what is held is its operand and its own
output fits. -/
theorem actRefused_chain {A A' : Option (List ℤ)} {C C' : Option P} {M : ℤ} (hb : t.build = u.build)
    (hfit : i + 1 < n → M * l.N ≤ t.build.actHold)
    (hheld : 0 < i → t.heldValid = true ∧ t.heldM = M ∧ t.heldN = l.K ∧ t.build.actHold ≠ 0) :
    actRefused t (copyCmd (l.cmd M (chainFlags act n i) A C)) =
      actRefused u (copyCmd (l.cmd M (layerFlags act n i) A' C')) := by
  unfold actRefused copyCmd Layer.cmd
  dsimp only
  rw [← hb]
  by_cases h₃ : 0 < i
  · obtain ⟨hv, hM, hN, hne⟩ := hheld h₃
    by_cases h₁ : i + 1 < n
    · have hle : ¬(t.build.actHold : ℤ) < M * l.N := not_lt.mpr (hfit h₁)
      simp [chainFlags, layerFlags, h₁, h₃, cmdAct, cmdHold, cmdFromHeld, hv, hM, hN, hle]
    · cases act <;>
        simp [chainFlags, layerFlags, h₁, h₃, cmdAct, cmdHold, cmdFromHeld, hv, hM, hN, hne]
  · by_cases h₁ : i + 1 < n
    · have hle : ¬(t.build.actHold : ℤ) < M * l.N := not_lt.mpr (hfit h₁)
      simp [chainFlags, layerFlags, h₁, h₃, cmdAct, cmdHold, cmdFromHeld, hle]
    · cases act <;> simp [chainFlags, layerFlags, h₁, h₃, cmdAct, cmdHold, cmdFromHeld]

/-- The operand of a chained layer is what the other host submits, cut to the layer's size. -/
theorem operandA_chain {A : Option (List ℤ)} {C : Option P} {M : ℤ} {a : List ℤ}
    (hfirst : i = 0 → A = some a) (hlater : 0 < i → t.held = a.take (M.toNat * l.K.toNat)) :
    operandA t (copyCmd (l.cmd M (chainFlags act n i) A C)) = a.take (M.toNat * l.K.toNat) := by
  unfold operandA copyCmd Layer.cmd
  dsimp only
  by_cases hi : 0 < i
  · rw [if_pos (chainFlags_fromHeld.mpr hi)]
    exact hlater hi
  · have hf : ¬chainFlags act n i &&& cmdFromHeld ≠ 0 := fun h => hi (chainFlags_fromHeld.mp h)
    rw [if_neg hf, if_neg hf, hfirst (by omega)]
    rfl

theorem operandA_layer {C : Option P} {M : ℤ} {a : List ℤ} :
    operandA u (copyCmd (l.cmd M (layerFlags act n i) (some a) C)) =
      a.take (M.toNat * l.K.toNat) := by
  unfold operandA copyCmd Layer.cmd
  dsimp only
  have hf : ¬layerFlags act n i &&& cmdFromHeld ≠ 0 := fun h => h layerFlags_fromHeld
  rw [if_neg hf, if_neg hf]
  rfl

theorem staged_chain {A A' : Option (List ℤ)} {C C' : Option P} {M : ℤ} :
    staged (copyCmd (l.cmd M (chainFlags act n i) A C)) =
      staged (copyCmd (l.cmd M (layerFlags act n i) A' C')) := by
  funext sums
  unfold staged actStage copyCmd Layer.cmd
  dsimp only
  rw [chainFlags_act]

theorem staged_length (c : Cmd P) (sums : List ℤ) : (staged c sums).1.length = sums.length := by
  unfold staged actStage
  split <;> simp

/-- The arithmetic of a layer is one on both chips. -/
theorem gemmArith_chain {A : Option (List ℤ)} {C C' : Option P} {M : ℤ} {a : List ℤ}
    (hregs : t.regs = u.regs) (hdev : t.dev = u.dev) (hb : t.build = u.build)
    (hheap : t.heap = u.heap) (hfit : i + 1 < n → M * l.N ≤ t.build.actHold)
    (hfirst : i = 0 → A = some a)
    (hlater : 0 < i → t.held = a.take (M.toNat * l.K.toNat) ∧ t.heldValid = true ∧ t.heldM = M ∧
      t.heldN = l.K ∧ t.build.actHold ≠ 0) :
    (gemmArith k t (copyCmd (l.cmd M (chainFlags act n i) A C))).2 =
      (gemmArith k u (copyCmd (l.cmd M (layerFlags act n i) (some a) C'))).2 ∧
    tileCall k t (copyCmd (l.cmd M (chainFlags act n i) A C)) =
      tileCall k u (copyCmd (l.cmd M (layerFlags act n i) (some a) C')) := by
  have hcall : tileCall k t (copyCmd (l.cmd M (chainFlags act n i) A C)) =
      tileCall k u (copyCmd (l.cmd M (layerFlags act n i) (some a) C')) := by
    unfold tileCall
    rw [operandA_chain hfirst fun h => (hlater h).1, operandA_layer, hregs, hdev, hb]
    rfl
  refine ⟨gemmArith_agree ?_ ?_ (by rw [hheap]) hcall staged_chain, hcall⟩
  · exact actRefused_chain hb hfit fun h => (hlater h).2
  · rw [hregs]
    rfl

/-! ## Layer by layer -/

/-- The two hosts after `i` layers, all of them done. -/
structure Level (w : Network P) (i : ℕ) (r r' : Twin Dev P × List (Ending P)) : Prop where
  done : ∀ e ∈ r.2, e.how.status = .done
  hows : r.2.map (·.how) = r'.2.map (·.how)
  length : r'.2.length = i
  regs : r.1.regs = r'.1.regs
  dev : r.1.dev = r'.1.dev
  build : r.1.build = r'.1.build
  fits : w.Fits r.1.build
  idle : r.1.state = .idle ∧ r'.1.state = .idle
  heap : r.1.heap = (fun _ => true) ∧ r'.1.heap = fun _ => true
  /-- What the chained tile holds is what the other host reads back. -/
  handed : 0 < i → i < w.layers.length → ∃ out l, w.layers[i - 1]? = some l ∧
    out.length = w.M.toNat * l.N.toNat ∧ w.operand r'.2 = some out ∧ r.1.held = out ∧
    r.1.heldValid = true ∧ r.1.heldM = w.M ∧ r.1.heldN = l.N ∧ r.1.build.actHold ≠ 0

/-- The `i`-th command of the chained host, as the twin copies it. -/
def Network.chainCmd (w : Network P) (i : ℕ) (l : Layer P) : Cmd P :=
  copyCmd (l.cmd w.M (chainFlags w.act w.layers.length i) (if i = 0 then some w.A else l.spareA)
    (if i + 1 < w.layers.length then l.spareC else some l.C))

/-- The `i`-th command of the other host. -/
def Network.apartCmd (w : Network P) (i : ℕ) (l : Layer P) (A : List ℤ) : Cmd P :=
  copyCmd (l.cmd w.M (layerFlags w.act w.layers.length i) (some A) (some l.C))

theorem readBack_done {l : Layer P} {M : ℤ} {A out : List ℤ} {sats clips : ℤ} :
    readBack (⟨copyCmd (l.cmd M (layerFlags act n i) (some A) (some l.C)), .done out sats clips⟩ :
      Ending P) = some out := by
  have hf : (copyCmd (l.cmd M (layerFlags act n i) (some A) (some l.C))).flags &&& cmdHold = 0 :=
    layerFlags_hold
  unfold readBack Ending.stores
  dsimp only
  rw [if_pos hf]
  rfl

/-- A layer that activates and is not refused is one of a chip that has the stage. -/
theorem actHold_ne_zero {c : Cmd P} (hr : actRefused t c = false) (hf : c.flags ≠ 0) :
    t.build.actHold ≠ 0 := by
  intro h0
  unfold actRefused at hr
  rw [if_neg hf] at hr
  split at hr <;> cases hr

/-- The next layer is refused on both chips, or done on both. -/
theorem Level.next (hk : k.Sized) {r r' : Twin Dev P × List (Ending P)} (hl : Level w i r r')
    (hcomp : w.Composes) (hi : w.layers[i]? = some l) {A : List ℤ}
    (hA : w.operand r'.2 = some A) (hM : 0 ≤ w.M) (hN : 0 ≤ l.N) :
    ((serve k r.1 (w.chainCmd i l)).2 = [⟨w.chainCmd i l, .refused⟩] ∧
      (serve k r'.1 (w.apartCmd i l A)).2 = [⟨w.apartCmd i l A, .refused⟩]) ∨
    Level w (i + 1)
      ((serve k r.1 (w.chainCmd i l)).1, r.2 ++ (serve k r.1 (w.chainCmd i l)).2)
      ((serve k r'.1 (w.apartCmd i l A)).1, r'.2 ++ (serve k r'.1 (w.apartCmd i l A)).2) := by
  have hlen : i < w.layers.length := (List.getElem?_eq_some_iff.mp hi).1
  have hheap : r.1.heap = r'.1.heap := hl.heap.1.trans hl.heap.2.symm
  have hfirst : i = 0 → (if i = 0 then some w.A else l.spareA) = some A := by
    intro h0
    have hnil : r'.2 = [] := List.length_eq_zero_iff.mp (hl.length.trans h0)
    rw [hnil] at hA
    rw [if_pos h0]
    exact hA
  have hlater : 0 < i → r.1.held = A.take (w.M.toNat * l.K.toNat) ∧ r.1.heldValid = true ∧
      r.1.heldM = w.M ∧ r.1.heldN = l.K ∧ r.1.build.actHold ≠ 0 := by
    intro h0
    obtain ⟨out, l', hl', hout, hop, hheld, hv, hm, hn, hne⟩ := hl.handed h0 hlen
    obtain rfl : out = A := Option.some.inj (hop.symm.trans hA)
    have hK : l.K = l'.N := hcomp (i - 1) l' l hl' (by rwa [Nat.sub_add_cancel h0])
    refine ⟨?_, hv, hm, hn.trans hK.symm, hne⟩
    rw [hheld, hK, ← hout, List.take_length]
  obtain ⟨harith, hcall⟩ :
      (gemmArith k r.1 (w.chainCmd i l)).2 = (gemmArith k r'.1 (w.apartCmd i l A)).2 ∧
        tileCall k r.1 (w.chainCmd i l) = tileCall k r'.1 (w.apartCmd i l A) :=
    gemmArith_chain hl.regs hl.dev hl.build hheap (fun h => hl.fits i l h hi) hfirst hlater
  cases hr : (gemmArith k r.1 (w.chainCmd i l)).2 with
  | none =>
    have hr' : (gemmArith k r'.1 (w.apartCmd i l A)).2 = none := harith.symm.trans hr
    exact .inl ⟨serve_of_none hl.idle.1 hr, serve_of_none hl.idle.2 hr'⟩
  | some a =>
    have hr' : (gemmArith k r'.1 (w.apartCmd i l A)).2 = some a := harith.symm.trans hr
    obtain ⟨he, hs⟩ := serve_of_some hr
    obtain ⟨he', hs'⟩ := serve_of_some hr'
    right
    refine ⟨?_, ?_, ?_, ?_, ?_, ?_, hs.build.symm ▸ hl.fits, ⟨hs.state, hs'.state⟩, ?_, ?_⟩
    · intro e hmem
      rcases List.mem_append.mp hmem with hmem | hmem
      · exact hl.done e hmem
      · rw [he, List.mem_singleton] at hmem
        rw [hmem]
        rfl
    · show (r.2 ++ _).map _ = (r'.2 ++ _).map _
      rw [List.map_append, List.map_append, hl.hows, he, he']
      rfl
    · show (r'.2 ++ _).length = _
      rw [List.length_append, hl.length, he']
      rfl
    · show (serve k r.1 _).1.regs = (serve k r'.1 _).1.regs
      rw [hs.regs, hs'.regs, hl.regs, hl.build]
      rfl
    · show (serve k r.1 _).1.dev = (serve k r'.1 _).1.dev
      rw [hs.dev, hs'.dev]
      exact congrArg Prod.fst hcall
    · exact hs.build.trans (hl.build.trans hs'.build.symm)
    · refine ⟨hs.heap.trans ?_, hs'.heap.trans ?_⟩
      · rw [hl.heap.1]
      · rw [hl.heap.2]
    · intro _ hnext
      obtain ⟨hheld, hheldM, hheldN, hv⟩ := hs.held (chainFlags_hold.mpr hnext)
      rcases hg : gemmArith k r.1 (w.chainCmd i l) with ⟨v, ra⟩
      rw [hg] at hr
      obtain rfl : ra = some a := hr
      obtain ⟨hact, -, -, sums, hsums, hst, -⟩ := gemmArith_some hg
      refine ⟨a.out, l, by simpa using hi, ?_, ?_, hheld, hv, hheldM, hheldN, ?_⟩
      · have hsz := hk _ _ _ _ _ _ _ _ _ _ _ (congrArg Prod.snd hsums)
        have hout : a.out = (staged (w.chainCmd i l) sums).1 := (congrArg Prod.fst hst).symm
        rw [hout, staged_length, hsz]
        exact Int.toNat_mul hM hN
      · show w.operand (r'.2 ++ _) = _
        unfold Network.operand
        rw [he', List.getLast?_append]
        exact readBack_done
      · show (serve k r.1 (w.chainCmd i l)).1.build.actHold ≠ 0
        rw [hs.build]
        refine actHold_ne_zero hact ?_
        show chainFlags w.act w.layers.length i ≠ 0
        intro h0
        have hhold : chainFlags w.act w.layers.length i &&& cmdHold ≠ 0 := chainFlags_hold.mpr hnext
        rw [h0] at hhold
        exact hhold rfl

/-- The twin takes both commands of a layer or neither. -/
theorem submittable_chain {A A' : Option (List ℤ)} {C C' : Option P} {M : ℤ}
    (hA : 0 < i ∨ A.isSome = true) (hC : i + 1 < n ∨ C.isSome = true) (hA' : A'.isSome = true)
    (hC' : C'.isSome = true) :
    submittable (l.cmd M (chainFlags act n i) A C) =
      submittable (l.cmd M (layerFlags act n i) A' C') := by
  have hopA : (A.isSome || decide (chainFlags act n i &&& cmdFromHeld ≠ 0)) = true := by
    rcases hA with h | h
    · rw [decide_eq_true (chainFlags_fromHeld.mpr h), Bool.or_true]
    · rw [h, Bool.true_or]
  have hopC : (C.isSome || decide (chainFlags act n i &&& cmdHold ≠ 0)) = true := by
    rcases hC with h | h
    · rw [decide_eq_true (chainFlags_hold.mpr h), Bool.or_true]
    · rw [h, Bool.true_or]
  unfold submittable Layer.cmd
  dsimp only
  rw [hopA, hopC, hA', hC', Bool.true_or, Bool.true_or]

theorem submittable_pos {c : Cmd P} (h : submittable c = true) : 0 ≤ c.M ∧ 0 ≤ c.N := by
  unfold submittable at h
  simp only [Bool.and_eq_true, decide_eq_true_eq] at h
  obtain ⟨⟨⟨-, ⟨hM, hN⟩, -⟩, -⟩, -⟩ := h
  omega

/-- The first `i` commands' endings are `done`, and the one behind them, if any, is not. -/
theorem layersDone_eq {es : List (Ending P)} (hi : i ≤ es.length)
    (hdone : ∀ e ∈ es.take i, e.how.status = .done)
    (hnext : ∀ e, es[i]? = some e → e.how.status ≠ .done) : layersDone es = i := by
  unfold layersDone
  rw [← List.take_append_drop i es,
    List.takeWhile_append_of_pos fun e he => by simpa using hdone e he]
  have hnil : (es.drop i).takeWhile (fun e => e.how.status = .done) = [] := by
    rcases hd : es.drop i with _ | ⟨e, rest⟩
    · rfl
    · have he : es[i]? = some e := by
        rw [← List.head?_drop, hd]
        rfl
      rw [List.takeWhile_cons_of_neg (by simpa using hnext e he)]
  rw [hnil, List.append_nil, List.length_take, Nat.min_eq_left hi]

/-! ## The two runs -/

/-- What the chained host has had accepted. -/
theorem Fed.chained {c : Cmd P} (h : Fed k w.chained t₀ s) (hc : (acceptedCmds s.moves)[i]? = some c) :
    ∃ l, w.layers[i]? = some l ∧ c = w.chainCmd i l ∧
      submittable (l.cmd w.M (chainFlags w.act w.layers.length i)
        (if i = 0 then some w.A else l.spareA)
        (if i + 1 < w.layers.length then l.spareC else some l.C)) = true := by
  obtain ⟨e, raw, -, hp, hs, rfl⟩ := h.planned i c hc
  obtain ⟨l, hl, rfl⟩ := Option.map_eq_some_iff.mp hp
  exact ⟨l, hl, rfl, hs⟩

/-- What the other host has had accepted: each behind the end of the one before it. -/
theorem Fed.apart {c : Cmd P} (h : Fed k w.apart t₀ s) (hc : (acceptedCmds s.moves)[i]? = some c) :
    ∃ l A, w.layers[i]? = some l ∧ w.operand (s.ended.take i) = some A ∧ c = w.apartCmd i l A ∧
      submittable (l.cmd w.M (layerFlags w.act w.layers.length i) (some A) (some l.C)) = true := by
  obtain ⟨e, raw, he, hp, hs, rfl⟩ := h.planned i c hc
  unfold Network.apart at hp
  split at hp
  · next hlen =>
    rw [List.length_take, Nat.min_eq_left he] at hlen
    subst hlen
    obtain ⟨A, hA, hmap⟩ := Option.bind_eq_some_iff.mp hp
    obtain ⟨l, hl, rfl⟩ := Option.map_eq_some_iff.mp hmap
    exact ⟨l, A, hl, hA, rfl, hs⟩
  · cases hp

/-- Where the two hosts stop: they have had the same layers taken, or the next is refused on both. -/
def Stopped (w : Network P) (i : ℕ) (s s' : History Dev P) : Prop :=
  ((acceptedCmds s.moves).length = i ∧ (acceptedCmds s'.moves).length = i) ∨
    ∃ c c', s.ended[i]? = some ⟨c, .refused⟩ ∧ s'.ended[i]? = some ⟨c', .refused⟩ ∧
      i < w.layers.length

/-- From a level on, both hosts go on to the next one or stop together. -/
theorem Level.advance (hk : k.Sized) (hcomp : w.Composes) {s s' : History Dev P}
    (hs : Fed k w.chained t₀ s) (hs' : Fed k w.apart t₀ s') (hi₀ : t₀.state = .idle)
    (hfin : w.chained.Finished s) (hfin' : w.apart.Finished s') (hn : i < w.layers.length)
    (hle : i ≤ (acceptedCmds s.moves).length) (hle' : i ≤ (acceptedCmds s'.moves).length)
    (hl : Level w i (serveAll k t₀ ((acceptedCmds s.moves).take i))
      (serveAll k t₀ ((acceptedCmds s'.moves).take i))) :
    Stopped w i s s' ∨
      (i + 1 ≤ (acceptedCmds s.moves).length ∧ i + 1 ≤ (acceptedCmds s'.moves).length ∧
        Level w (i + 1) (serveAll k t₀ ((acceptedCmds s.moves).take (i + 1)))
          (serveAll k t₀ ((acceptedCmds s'.moves).take (i + 1)))) := by
  obtain ⟨-, hended, -⟩ := hs.finished hfin.1
  obtain ⟨-, hended', -⟩ := hs'.finished hfin'.1
  have htake' : s'.ended.take i = (serveAll k t₀ ((acceptedCmds s'.moves).take i)).2 := by
    rw [serveAll_take _ t₀ hi₀ i hle', ← hended']
  have hlength' : s'.ended.length = (acceptedCmds s'.moves).length := by
    rw [hended', serveAll_length _ t₀ hi₀]
  obtain ⟨l, hlayer⟩ : ∃ l, w.layers[i]? = some l := ⟨_, List.getElem?_eq_getElem hn⟩
  obtain ⟨A, hA⟩ : ∃ A, w.operand (s'.ended.take i) = some A := by
    rw [htake']
    by_cases h0 : 0 < i
    · obtain ⟨out, -, -, -, hop, -⟩ := hl.handed h0 hn
      exact ⟨out, hop⟩
    · have hnil := List.length_eq_zero_iff.mp (hl.length.trans (by omega : i = 0))
      rw [hnil]
      exact ⟨w.A, rfl⟩
  have hsub : submittable (l.cmd w.M (chainFlags w.act w.layers.length i)
        (if i = 0 then some w.A else l.spareA)
        (if i + 1 < w.layers.length then l.spareC else some l.C)) =
      submittable (l.cmd w.M (layerFlags w.act w.layers.length i) (some A) (some l.C)) :=
    submittable_chain
    (by
      rcases Nat.eq_zero_or_pos i with h | h
      · exact .inr (by rw [if_pos h]; rfl)
      · exact .inl h)
    (by
      by_cases h : i + 1 < w.layers.length
      · exact .inl h
      · exact .inr (by rw [if_neg h]; rfl))
    rfl rfl
  rcases Nat.lt_or_ge i (acceptedCmds s.moves).length with hlt | hge
  · have hc := List.getElem?_eq_getElem hlt
    obtain ⟨l₁, hl₁, hcmd, hok⟩ := hs.chained hc
    obtain rfl : l = l₁ := Option.some.inj (hlayer.symm.trans hl₁)
    rcases Nat.lt_or_ge i (acceptedCmds s'.moves).length with hlt' | hge'
    · have hc' := List.getElem?_eq_getElem hlt'
      obtain ⟨l₂, A₂, hl₂, hA₂, hcmd', -⟩ := hs'.apart hc'
      obtain rfl : l = l₂ := Option.some.inj (hlayer.symm.trans hl₂)
      obtain rfl : A = A₂ := Option.some.inj (hA.symm.trans hA₂)
      obtain ⟨hM, hN⟩ := submittable_pos hok
      obtain ⟨hturn, hend⟩ := serveAll_turn (k := k) hi₀ hc
      obtain ⟨hturn', hend'⟩ := serveAll_turn (k := k) hi₀ hc'
      rw [← hended, hcmd] at hend
      rw [← hended', hcmd'] at hend'
      rw [hturn, hturn', hcmd, hcmd']
      rcases hl.next hk hcomp hlayer (htake' ▸ hA) hM hN with ⟨hr, hr'⟩ | hnext
      · rw [hr] at hend
        rw [hr'] at hend'
        exact .inl (.inr ⟨_, _, hend, hend', hn⟩)
      · exact .inr ⟨hlt, hlt', hnext⟩
    · -- the other host would still submit this layer
      have hlen' : s'.ended.length = i := by omega
      have hplan : w.apart (acceptedCmds s'.moves).length s'.ended =
          some (l.cmd w.M (layerFlags w.act w.layers.length i) (some A) (some l.C)) := by
        unfold Network.apart
        rw [if_pos hlength', ← hlength', hlen', hlayer]
        rw [← hlen', List.take_length] at hA
        rw [hA]
        rfl
      have hno := hfin'.2 _ hplan
      rw [← hsub] at hno
      exact absurd (hok.symm.trans hno) (by simp)
  · have hleni : (acceptedCmds s.moves).length = i := by omega
    have hplan : w.chained (acceptedCmds s.moves).length s.ended =
        some (l.cmd w.M (chainFlags w.act w.layers.length i)
          (if i = 0 then some w.A else l.spareA)
          (if i + 1 < w.layers.length then l.spareC else some l.C)) := by
      unfold Network.chained
      rw [hleni, hlayer]
      rfl
    have hno := hfin.2 _ hplan
    rw [hsub] at hno
    rcases Nat.lt_or_ge i (acceptedCmds s'.moves).length with hlt' | hge'
    · obtain ⟨l₂, A₂, hl₂, hA₂, -, hok⟩ := hs'.apart (List.getElem?_eq_getElem hlt')
      obtain rfl : l = l₂ := Option.some.inj (hlayer.symm.trans hl₂)
      obtain rfl : A = A₂ := Option.some.inj (hA.symm.trans hA₂)
      exact absurd (hok.symm.trans hno) (by simp)
    · exact .inl (.inl ⟨hleni, by omega⟩)

/-- The level at which the two hosts stop. -/
theorem exists_stop (hk : k.Sized) (hcomp : w.Composes) {s s' : History Dev P}
    (hs : Fed k w.chained t₀ s) (hs' : Fed k w.apart t₀ s') (hi₀ : t₀.state = .idle)
    (hfin : w.chained.Finished s) (hfin' : w.apart.Finished s') (m : ℕ) :
    ∀ i, i + m = w.layers.length → i ≤ (acceptedCmds s.moves).length →
      i ≤ (acceptedCmds s'.moves).length →
      Level w i (serveAll k t₀ ((acceptedCmds s.moves).take i))
        (serveAll k t₀ ((acceptedCmds s'.moves).take i)) →
      ∃ j ≤ w.layers.length, j ≤ (acceptedCmds s.moves).length ∧
        j ≤ (acceptedCmds s'.moves).length ∧
        Level w j (serveAll k t₀ ((acceptedCmds s.moves).take j))
          (serveAll k t₀ ((acceptedCmds s'.moves).take j)) ∧ Stopped w j s s' := by
  induction m with
  | zero =>
    intro i hn hle hle' hl
    -- neither host has a layer behind the last one
    have hend : (acceptedCmds s.moves).length = i ∧ (acceptedCmds s'.moves).length = i := by
      constructor
      · by_contra hne
        obtain ⟨l, hlayer, -⟩ :=
          hs.chained (List.getElem?_eq_getElem (by omega : i < (acceptedCmds s.moves).length))
        have := (List.getElem?_eq_some_iff.mp hlayer).1
        omega
      · by_contra hne
        obtain ⟨l, A, hlayer, -⟩ :=
          hs'.apart (List.getElem?_eq_getElem (by omega : i < (acceptedCmds s'.moves).length))
        have := (List.getElem?_eq_some_iff.mp hlayer).1
        omega
    exact ⟨i, by omega, hle, hle', hl, .inl hend⟩
  | succ m ih =>
    intro i hn hle hle' hl
    rcases hl.advance hk hcomp hs hs' hi₀ hfin hfin' (by omega) hle hle' with
      hstop | ⟨hle, hle', hl⟩
    · exact ⟨i, by omega, hle, hle', hl, hstop⟩
    · exact ih (i + 1) (by omega) hle hle' hl

theorem Fed.run {ds : List Deed} (h : Fed k p t₀ s) : Fed k p t₀ (after (p.step k) s ds) :=
  invariant_always (I := Fed k p t₀) (fun _ d hs => hs.step d) s ds h

/-- Chained equivalence. The layers of a network that compose and whose intermediate outputs fit the
hold buffer stop at the same first layer, if any, chained on the chiplet or read back and submitted
again, however each host spreads its submissions over time. If none stops, the sums, the counts of
each layer, the device and the registers are the same. -/
theorem chained_equivalence (k : TileKernel Dev) (hk : k.Sized) (t₀ : Twin Dev P)
    (hidle : t₀.state = .idle) (hempty : t₀.q = []) (hcal : t₀.calPending = false)
    (hmalloc : t₀.heap = fun _ => true) (w : Network P) (hcomp : w.Composes)
    (hfits : w.Fits t₀.build) (ds ds' : List Deed) :
    let s := after (w.chained.step k) ⟨t₀, [], []⟩ ds
    let s' := after (w.apart.step k) ⟨t₀, [], []⟩ ds'
    w.chained.Finished s → w.apart.Finished s' →
      layersDone s.ended = layersDone s'.ended ∧
      (layersDone s.ended = w.layers.length →
        s.ended.map (·.how) = s'.ended.map (·.how) ∧ s.ended.length = w.layers.length ∧
          s.twin.dev = s'.twin.dev ∧ s.twin.regs = s'.twin.regs) := by
  intro s s' hfin hfin'
  have hs : Fed k w.chained t₀ s := (Fed.start hidle hempty hcal hmalloc).run
  have hs' : Fed k w.apart t₀ s' := (Fed.start hidle hempty hcal hmalloc).run
  have hzero : Level w 0 (serveAll k t₀ ((acceptedCmds s.moves).take 0))
      (serveAll k t₀ ((acceptedCmds s'.moves).take 0)) :=
    ⟨fun _ h => (by cases h), rfl, rfl, rfl, rfl, rfl, hfits, ⟨hidle, hidle⟩, ⟨hmalloc, hmalloc⟩,
      fun h => absurd h (lt_irrefl 0)⟩
  obtain ⟨i, hn, hle, hle', hl, hstop⟩ := exists_stop hk hcomp hs hs' hidle hfin hfin'
    w.layers.length 0 (Nat.zero_add _) (Nat.zero_le _) (Nat.zero_le _) hzero
  obtain ⟨-, hended, hstill⟩ := hs.finished hfin.1
  obtain ⟨-, hended', hstill'⟩ := hs'.finished hfin'.1
  have hlength : s.ended.length = (acceptedCmds s.moves).length := by
    rw [hended, serveAll_length _ t₀ hidle]
  have hlength' : s'.ended.length = (acceptedCmds s'.moves).length := by
    rw [hended', serveAll_length _ t₀ hidle]
  have htake : s.ended.take i = (serveAll k t₀ ((acceptedCmds s.moves).take i)).2 := by
    rw [serveAll_take _ t₀ hidle i hle, ← hended]
  have htake' : s'.ended.take i = (serveAll k t₀ ((acceptedCmds s'.moves).take i)).2 := by
    rw [serveAll_take _ t₀ hidle i hle', ← hended']
  have hdone : ∀ e ∈ s.ended.take i, e.how.status = .done := htake ▸ hl.done
  have hdone' : ∀ e ∈ s'.ended.take i, e.how.status = .done := by
    intro e he
    rw [htake'] at he
    have hmem := List.mem_map_of_mem (f := fun e : Ending P => e.how) he
    rw [← hl.hows] at hmem
    obtain ⟨e', he', heq⟩ := List.mem_map.mp hmem
    rw [← heq]
    exact hl.done e' he'
  have hnext : ∀ e, s.ended[i]? = some e → e.how.status ≠ .done := by
    intro e he
    rcases hstop with ⟨hi, -⟩ | ⟨c, -, hc, -, -⟩
    · rw [List.getElem?_eq_none (by omega)] at he
      cases he
    · rw [hc] at he
      cases he
      simp [End.status]
  have hnext' : ∀ e, s'.ended[i]? = some e → e.how.status ≠ .done := by
    intro e he
    rcases hstop with ⟨-, hi⟩ | ⟨-, c, -, hc, -⟩
    · rw [List.getElem?_eq_none (by omega)] at he
      cases he
    · rw [hc] at he
      cases he
      simp [End.status]
  have hcount : layersDone s.ended = i := layersDone_eq (by omega) hdone hnext
  have hcount' : layersDone s'.ended = i := layersDone_eq (by omega) hdone' hnext'
  refine ⟨hcount.trans hcount'.symm, fun hall => ?_⟩
  have hi : i = w.layers.length := hcount.symm.trans hall
  -- the last layer is the last command of both
  obtain ⟨hlen, hlen'⟩ : (acceptedCmds s.moves).length = i ∧ (acceptedCmds s'.moves).length = i := by
    rcases hstop with h | ⟨-, -, -, -, hlt⟩
    · exact h
    · exact absurd hi (by omega)
  rw [List.take_of_length_le hlen.le, List.take_of_length_le hlen'.le] at hl
  refine ⟨?_, hlength.trans (hlen.trans hi), ?_, ?_⟩
  · rw [hended, hended']
    exact hl.hows
  · exact (still_dev hstill).trans (hl.dev.trans (still_dev hstill').symm)
  · exact (still_regs hstill).trans (hl.regs.trans (still_regs hstill').symm)

theorem exactKernel_sized : exactKernel.Sized := by
  intro cfg tile dev bank M N K A B sats sums h
  obtain ⟨-, rfl⟩ := Prod.mk.inj (Option.some.inj h)
  simp

/-- A one by one layer. -/
def unitLayer : Layer ℕ :=
  ⟨0, 1, 1, [3], none, 0, 8, 0, none, none, none, none, none⟩

/-- Two of them, the second without an activation. -/
def unitNetwork : Network ℕ :=
  ⟨1, [2], [unitLayer, unitLayer], false⟩

/-- A free chip that holds sixteen operands. -/
def holdTwin : Twin Unit ℕ :=
  { build := ⟨4, 4, 8, 32, 1, 16⟩, dev := () }

theorem unitNetwork_composes : unitNetwork.Composes := by
  intro i l l' h h'
  match i, h, h' with
  | 0, h, h' =>
    cases h
    cases h'
    rfl
  | _ + 1, _, h' => cases h'

theorem unitNetwork_fits : unitNetwork.Fits holdTwin.build := by
  intro i l hi h
  match i, hi, h with
  | 0, _, h =>
    cases h
    decide
  | i + 1, hi, _ => exact absurd hi (by simp [unitNetwork])

theorem finished_of_none {p : Plan P} {s : History Dev P} (hi : s.twin.state = .idle)
    (h : p (acceptedCmds s.moves).length s.ended = none) : p.Finished s :=
  ⟨hi, fun c hc => by rw [h] at hc; cases hc⟩

/-- The two layers queued ahead, and read back. -/
theorem chained_equivalence_two :
    let s := after (unitNetwork.chained.step exactKernel) ⟨holdTwin, [], []⟩
      [.submit, .submit, .run 100]
    let s' := after (unitNetwork.apart.step exactKernel) ⟨holdTwin, [], []⟩
      [.submit, .run 100, .submit, .run 100]
    unitNetwork.chained.Finished s ∧ unitNetwork.apart.Finished s' ∧
      s.ended.map (·.how) = [.done [6] 0 0, .done [18] 0 0] ∧
      s.ended.map (·.how) = s'.ended.map (·.how) ∧ s.twin.regs = s'.twin.regs := by
  have hfin := finished_of_none (p := unitNetwork.chained)
    (s := after (unitNetwork.chained.step exactKernel) ⟨holdTwin, [], []⟩
      [.submit, .submit, .run 100]) (by decide +kernel) (by decide +kernel)
  have hfin' := finished_of_none (p := unitNetwork.apart)
    (s := after (unitNetwork.apart.step exactKernel) ⟨holdTwin, [], []⟩
      [.submit, .run 100, .submit, .run 100]) (by decide +kernel) (by decide +kernel)
  obtain ⟨-, hsame⟩ := chained_equivalence exactKernel exactKernel_sized holdTwin rfl rfl rfl rfl
    unitNetwork unitNetwork_composes unitNetwork_fits _ _ hfin hfin'
  obtain ⟨hhow, -, -, hregs⟩ := hsame (by decide +kernel)
  exact ⟨hfin, hfin', by decide +kernel, hhow, hregs⟩

end Grxcp.PtaTwin
