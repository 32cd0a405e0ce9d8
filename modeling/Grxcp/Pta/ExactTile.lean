import Mathlib.Data.List.GetD
import Grxcp.Lib.MajorOrder
import Grxcp.Pta.Driver

/-!
# A GEMM on an exact tile

What the driver relies on to bring back a product. The chiplet and its link are not part of it, so what
they do is stated of the hooks and of the memory (`ExactTile`): a command that the link has taken and that
ends done has its sums in the caller's buffer, and a slot that was rung in and reads done has them in the
staging buffer. A GEMM that the driver reports as done is then the product, whichever way it went
(`gemm_product`).
-/

namespace Grxcp.PtaChiplet

open PtaTwin (Cmd CmdStatus)
open PtaModule (ptqCtrl ptqStatus ptqTail ptqHead dStatus dIndex)

variable {E P : Type}

/-! ## What the chiplet does -/

/-- The cells are the low 32 bits of the product of two matrices, all three row by row. -/
def IsProduct (m n k : ℕ) (A B : List ℤ) (cell : ℕ → U32) : Prop :=
  ∀ (i : Fin m) (j : Fin n), cell (i * n + j) = BitVec.ofInt 32
    ((MajorOrder.rows m k (fun q => A.getD q 0) k * MajorOrder.rows k n (fun q => B.getD q 0) n) i j)

/-- A GEMM in a slot of the queue, with the address of its results. -/
structure Job where
  m : ℕ
  n : ℕ
  k : ℕ
  A : List ℤ
  B : List ℤ
  slot : U64
  out : U64

/-- The staging layout of a call. -/
def Call.layout (c : Call P) : Layout :=
  PtaChiplet.layout (BitVec.ofInt 64 c.M * BitVec.ofInt 64 c.K) (BitVec.ofInt 64 c.K * BitVec.ofInt 64 c.N)
    (BitVec.ofInt 64 c.M * BitVec.ofInt 64 c.N)

/-- The job that a driver publishes for a call. -/
def Driver.job (d : Driver E P) (c : Call P) (A B : List ℤ) : Job where
  m := c.M.toNat
  n := c.N.toNat
  k := c.K.toNat
  A := A
  B := B
  slot := d.dev.slotOf d.dev.next
  out := d.dev.stage.cpu + c.layout.c

/-- Two devices with the same registers and the same ring. -/
structure Device.Same (dev dev' : Device E P) : Prop where
  read32 : dev.read32 = dev'.read32
  write32 : dev.write32 = dev'.write32
  submit : dev.submit = dev'.submit
  ring : dev.ring = dev'.ring
  ringLog2 : dev.ringLog2 = dev'.ringLog2

theorem Device.Same.refl (dev : Device E P) : dev.Same dev := ⟨rfl, rfl, rfl, rfl, rfl⟩

theorem Device.Same.trans {a b c : Device E P} (h : a.Same b) (h' : b.Same c) : a.Same c :=
  ⟨h.read32.trans h'.read32, h.write32.trans h'.write32, h.submit.trans h'.submit, h.ring.trans h'.ring,
    h.ringLog2.trans h'.ringLog2⟩

/-- What the driver does while a slot is out keeps a property: reading registers, stopping and starting
the queue, looking at memory, and ending a slot. -/
structure Kept (host : Host E P) (dev : Device E P) (I : E → Prop) : Prop where
  read : ∀ f, dev.read32 = some f → ∀ e off, I e → I (f e off).1
  write : ∀ f, dev.write32 = some f → ∀ e off v, off = ptqCtrl ∨ off = ptqTail → I e → I (f e off v)
  look : ∀ e p, I e → I (host.ld32 e p).1
  store : ∀ (d : Driver E P) idx st, d.dev.Same dev → I d.env → I (d.storeStatus host idx st).env

theorem Kept.same {host : Host E P} {dev dev' : Device E P} {I : E → Prop} (hk : Kept host dev I)
    (hsame : dev'.Same dev) : Kept host dev' I where
  read f hf := hk.read f (hsame.read32 ▸ hf)
  write f hf := hk.write f (hsame.write32 ▸ hf)
  look := hk.look
  store d idx st hd := hk.store d idx st (hd.trans hsame)

/-- A chiplet that computes exactly, behind a device. `result` is what a buffer of the caller's holds. -/
structure ExactTile (host : Host E P) (result : E → P → List ℤ) (dev : Device E P) where
  /-- The link has taken a command. -/
  Taken : E → Cmd P → Prop
  taken : ∀ f, dev.submit = some f → ∀ e c e', f e c = (e', true) → Taken e' c
  taken_read : ∀ f, dev.read32 = some f → ∀ e c off, Taken e c → Taken (f e off).1 c
  taken_done : ∀ e c A B out status, Taken e c → c.A = some A → c.B = some B → c.C = some out →
    c.status = some status → host.status e status = .done →
      IsProduct c.M.toNat c.N.toNat c.K.toNat A B fun q => BitVec.ofInt 32 ((result e out).getD q 0)
  /-- A job is in its slot, and the doorbell has been rung. -/
  Rung : E → Job → Prop
  rung : ∀ (d : Driver E P) (c : Call P) (A B : List ℤ), d.dev.Same dev → 0 < c.M → 0 < c.N → 0 < c.K →
    A.length = c.M.toNat * c.K.toNat → B.length = c.K.toNat * c.N.toNat → A.all fits → B.all fits →
      Rung (d.publish host c A B c.layout).env (d.job c A B)
  rung_kept : ∀ job, Kept host dev fun e => Rung e job
  /-- A job has been seen to be done. -/
  Ended : E → Job → Prop
  rung_done : ∀ e job, Rung e job → (host.ld32 e (job.slot + BitVec.ofNat 64 dStatus)).2 = recDone →
    Ended (host.ld32 e (job.slot + BitVec.ofNat 64 dStatus)).1 job
  ended_look : ∀ e job p, Ended e job → Ended (host.ld32 e p).1 job
  ended_product : ∀ e job, Ended e job →
    IsProduct job.m job.n job.k job.A job.B fun q => (host.ld32 e (job.out + BitVec.ofNat 64 (4 * q))).2
  result_set : ∀ e out cells, result (host.setC e out cells) out = cells
  result_look : ∀ e out p, result (host.ld32 e p).1 out = result e out

/-! ## While a slot is out -/

section Keep

variable {host : Host E P} {dev : Device E P} {I : E → Prop} {d : Driver E P}

/-- The driver is on the device, in an environment with the property. -/
structure Driver.On (d : Driver E P) (dev : Device E P) (I : E → Prop) : Prop where
  same : d.dev.Same dev
  stage : d.dev.stage = dev.stage
  env : I d.env

/-- The rest of the device is the driver's own. -/
theorem Driver.On.with {d' : Driver E P} (hon : d.On dev I) (hsame : d'.dev.Same d.dev)
    (hstage : d'.dev.stage = d.dev.stage) (henv : d'.env = d.env) : d'.On dev I :=
  ⟨hsame.trans hon.same, hstage.trans hon.stage, henv ▸ hon.env⟩

theorem Driver.On.rd (hon : d.On dev I) (hk : Kept host dev I) (off : U32) : (d.rd off).1.On dev I := by
  unfold Driver.rd
  cases hr : d.dev.read32 with
  | none => exact hon
  | some f => exact ⟨hon.same, hon.stage, hk.read f (hon.same.read32 ▸ hr) _ _ hon.env⟩

theorem Driver.On.wr (hon : d.On dev I) (hk : Kept host dev I) {off : U32} (v : U32)
    (hoff : off = ptqCtrl ∨ off = ptqTail) : (d.wr off v).On dev I := by
  unfold Driver.wr
  cases hw : d.dev.write32 with
  | none => exact hon
  | some f => exact ⟨hon.same, hon.stage, hk.write f (hon.same.write32 ▸ hw) _ _ _ hoff hon.env⟩

theorem Driver.On.look (hon : d.On dev I) (hk : Kept host dev I) (p : U64) :
    (d.ld32 host p).1.On dev I :=
  ⟨hon.same, hon.stage, hk.look _ _ hon.env⟩

theorem Driver.On.quiesce (hk : Kept host dev I) (polls : ℕ) {d : Driver E P} (hon : d.On dev I) :
    (d.quiesce polls).1.On dev I := by
  induction polls generalizing d with
  | zero => exact hon
  | succ polls ih =>
    unfold Driver.quiesce
    dsimp only
    split
    · exact hon.rd hk _
    · exact ih (hon.rd hk _)

theorem Driver.On.endLost (hk : Kept host dev I) (slots : ℕ) (idx : U32) {d : Driver E P}
    (hon : d.On dev I) : (d.endLost host slots idx).On dev I := by
  induction slots generalizing idx d with
  | zero => exact hon
  | succ slots ih =>
    have hlook : (d.slotStatus host idx).1.On dev I := hon.look hk _
    unfold Driver.endLost
    dsimp only
    split
    · exact ih _ ⟨hlook.same, hlook.stage, hk.store _ idx recLost hlook.same hlook.env⟩
    · exact ih _ hlook

/-- A teardown keeps what is kept. -/
theorem Driver.On.teardown (hk : Kept host dev I) (hon : d.On dev I) : (d.teardown host).1.On dev I := by
  have hstop := (hon.wr hk 0 (.inl rfl)).quiesce hk kQuiescePolls
  unfold Driver.teardown
  split
  · exact hon
  dsimp only
  split
  next d' hd' =>
    rw [hd'] at hstop
    exact hstop.with ⟨rfl, rfl, rfl, rfl, rfl⟩ rfl rfl
  next d' hd' =>
    rw [hd'] at hstop
    have hend := (hstop.rd hk ptqHead).endLost hk
      ((d'.rd ptqHead).1.dev.next - if (d'.rd ptqHead).1.dev.next - (d'.rd ptqHead).1.dev.ended <
        (d'.rd ptqHead).2 - (d'.rd ptqHead).1.dev.ended then (d'.rd ptqHead).1.dev.ended
        else (d'.rd ptqHead).2).toNat
      (if (d'.rd ptqHead).1.dev.next - (d'.rd ptqHead).1.dev.ended <
        (d'.rd ptqHead).2 - (d'.rd ptqHead).1.dev.ended then (d'.rd ptqHead).1.dev.ended
        else (d'.rd ptqHead).2)
    exact (hend.wr hk _ (.inr rfl)).wr hk _ (.inl rfl)

/-- The loop that looks at a slot: a status of zero keeps what is kept, and another was read from it. -/
theorem Driver.On.pollSlot (hk : Kept host dev I) (slot : U64) (polls : ℕ) {d : Driver E P}
    (hon : d.On dev I) : (d.pollSlot host slot polls).1.On dev I ∧
      ((d.pollSlot host slot polls).2 ≠ 0 → ∃ d' : Driver E P, d'.On dev I ∧
        d'.ld32 host (slot + BitVec.ofNat 64 dStatus) = d.pollSlot host slot polls) := by
  induction polls generalizing d with
  | zero => exact ⟨hon, fun hne => absurd rfl hne⟩
  | succ polls ih =>
    have hlook := hon.look hk (slot + BitVec.ofNat 64 dStatus)
    unfold Driver.pollSlot
    dsimp only
    split
    · exact ⟨hlook, fun _ => ⟨d, hon, rfl⟩⟩
    split
    · exact ⟨hlook.rd hk _, fun hne => absurd rfl hne⟩
    · exact ih (hlook.rd hk _)

end Keep

/-! ## The product -/

section Product

variable {host : Host E P} {result : E → P → List ℤ} {dev : Device E P} (T : ExactTile host result dev)
  {d : Driver E P}

/-- The words of a buffer, read one after the other, are what each of them reads as. -/
theorem ldWords_ended {job : Job} (words : ℕ) (start : ℕ) (cell : ℕ → U32) {d : Driver E P}
    (hcell : ∀ e, T.Ended e job → ∀ q < start + words,
      (host.ld32 e (job.out + BitVec.ofNat 64 (4 * q))).2 = cell q)
    (hended : T.Ended d.env job) :
    T.Ended (d.ldWords host words (job.out + BitVec.ofNat 64 (4 * start))).1.env job ∧
      (d.ldWords host words (job.out + BitVec.ofNat 64 (4 * start))).2 =
        (List.range words).map fun q => cell (start + q) := by
  induction words generalizing start d with
  | zero => exact ⟨hended, rfl⟩
  | succ words ih =>
    have hnext : job.out + BitVec.ofNat 64 (4 * start) + 4 = job.out + BitVec.ofNat 64 (4 * (start + 1)) := by
      rw [Nat.mul_add, BitVec.ofNat_add, BitVec.add_assoc]
      rfl
    have hlook := T.ended_look d.env job (job.out + BitVec.ofNat 64 (4 * start)) hended
    obtain ⟨hend, hwords⟩ := ih (start + 1) (d := (d.ld32 host (job.out + BitVec.ofNat 64 (4 * start))).1)
      (fun e he q hq => hcell e he q (by omega)) hlook
    unfold Driver.ldWords
    dsimp only
    rw [hnext]
    refine ⟨hend, ?_⟩
    rw [hwords, List.range_succ_eq_map, List.map_cons, List.map_map]
    congr 1
    · exact hcell d.env hended start (by omega)
    · apply List.map_congr_left
      intro q _
      exact congrArg cell (by rw [Nat.succ_eq_add_one]; omega)

/-- The results of a job that has ended, as the driver reads them out. -/
theorem ldWords_product {job : Job} (hended : T.Ended d.env job) :
    T.Ended (d.ldWords host (job.m * job.n) job.out).1.env job ∧
      IsProduct job.m job.n job.k job.A job.B fun q =>
        ((d.ldWords host (job.m * job.n) job.out).2).getD q 0 := by
  -- every look at a cell of the results sees the same
  have hsame : ∀ e, T.Ended e job → ∀ q < 0 + job.m * job.n,
      (host.ld32 e (job.out + BitVec.ofNat 64 (4 * q))).2 =
        (host.ld32 d.env (job.out + BitVec.ofNat 64 (4 * q))).2 := by
    intro e he q hq
    have hpos : 0 < job.n := by
      rcases Nat.eq_zero_or_pos job.n with hzero | hpos
      · rw [hzero] at hq
        omega
      · exact hpos
    have hcell : q / job.n * job.n + q % job.n = q := Nat.div_add_mod' q job.n
    have hrow : q / job.n < job.m := Nat.div_lt_of_lt_mul (by rw [Nat.mul_comm]; omega)
    have hthere := T.ended_product e job he ⟨q / job.n, hrow⟩ ⟨q % job.n, Nat.mod_lt q hpos⟩
    have hhere := T.ended_product d.env job hended ⟨q / job.n, hrow⟩ ⟨q % job.n, Nat.mod_lt q hpos⟩
    dsimp only at hthere hhere
    rw [hcell] at hthere hhere
    rw [hthere, hhere]
  obtain ⟨hend, hwords⟩ := ldWords_ended T (job.m * job.n) 0 _ hsame hended
  rw [Nat.mul_zero, BitVec.add_zero] at hend hwords
  refine ⟨hend, fun i j => ?_⟩
  have hlt := MajorOrder.cell_lt i j
  dsimp only
  rw [hwords, List.getD_eq_getElem _ _ (by rwa [List.length_map, List.length_range]), List.getElem_map,
    List.getElem_range, Nat.zero_add]
  exact T.ended_product d.env job hended i j

/-- A job that is rung in and seen to be done, concluded without an error. -/
theorem conclude_product {job : Job} (hrung : T.Rung d.env job) {x : Driver E P} {st : U32}
    (hst : (d.ld32 host (job.slot + BitVec.ofNat 64 dStatus)).2 = st)
    (henv : x.env = (d.ld32 host (job.slot + BitVec.ofNat 64 dStatus)).1.env) (out : P) {nc : U64}
    (hnc : nc.toNat = job.m * job.n) {l : Layout} (hout : x.dev.stage.cpu + l.c = job.out)
    (hok : (x.conclude host out nc l job.slot st).2 = true) :
    IsProduct job.m job.n job.k job.A job.B fun q =>
      BitVec.ofInt 32 ((result (x.conclude host out nc l job.slot st).1.env out).getD q 0) := by
  unfold Driver.conclude at hok ⊢
  by_cases hdone : st = recDone
  · have hended : T.Ended x.env job := by
      rw [henv]
      exact T.rung_done d.env job hrung (hst.trans hdone)
    obtain ⟨-, hproduct⟩ := ldWords_product T hended
    rw [if_pos hdone, hnc, hout]
    intro i j
    have hcells : ∀ cells e p, result (host.ld32 (host.setC e out cells) p).1 out = cells :=
      fun cells e p => (T.result_look _ _ _).trans (T.result_set _ _ _)
    have hzero : (0 : ℤ) = BitVec.toInt (0 : U32) := rfl
    rw [← hproduct i j]
    dsimp only [Driver.ld32]
    rw [hcells, hzero, List.getD_map, BitVec.ofInt_toInt]
  · rw [if_neg hdone] at hok
    split at hok
    · cases hok
    split at hok
    · cases hok
    · cases hok

/-- A job that is rung in and waited for without an error. -/
theorem await_product {job : Job} (hsame : d.dev.Same dev) (hrung : T.Rung d.env job) (out : P) {nc : U64}
    (hnc : nc.toNat = job.m * job.n) {l : Layout} (hout : d.dev.stage.cpu + l.c = job.out)
    (hok : (d.await host out nc l job.slot).2 = true) :
    IsProduct job.m job.n job.k job.A job.B fun q =>
      BitVec.ofInt 32 ((result (d.await host out nc l job.slot).1.env out).getD q 0) := by
  have hk := (T.rung_kept job).same hsame
  have hon : d.On d.dev fun e => T.Rung e job := ⟨.refl _, rfl, hrung⟩
  obtain ⟨hpolled, hseen⟩ := hon.pollSlot hk job.slot kQueuePolls
  unfold Driver.await at hok ⊢
  cases hpoll : d.pollSlot host job.slot kQueuePolls with
  | mk x st =>
    rw [hpoll] at hok hpolled hseen
    dsimp only at hok hpolled hseen ⊢
    by_cases hst : st ≠ 0
    · rw [if_pos hst] at hok ⊢
      obtain ⟨d', hd', hread⟩ := hseen hst
      refine conclude_product T hd'.env (congrArg Prod.snd hread) ?_ out hnc ?_ hok
      · rw [hread]
      · exact (congrArg (·.cpu + l.c) hpolled.stage).trans hout
    · rw [if_neg hst] at hok ⊢
      have htorn := hpolled.teardown hk
      cases hdown : x.teardown host with
      | mk y ended =>
        rw [hdown] at hok htorn
        cases ended with
        | false => exact absurd hok Bool.false_ne_true
        | true =>
          refine conclude_product T htorn.env ?_ ?_ out hnc ?_ hok
          · rfl
          · rfl
          · exact (congrArg (·.cpu + l.c) htorn.stage).trans hout

/-- A staging buffer that is there comes with the same registers and ring. -/
theorem stageFor_same {bytes : U64} (hok : (d.stageFor bytes).2 = true) :
    (d.stageFor bytes).1.dev.Same d.dev := by
  have hdrop : (if d.dev.stage.cpu ≠ 0 then d.free d.dev.stage else d).dev.Same d.dev := by
    unfold Driver.free
    split
    · split
      · exact .refl _
      · exact ⟨rfl, rfl, rfl, rfl, rfl⟩
    · exact .refl _
  unfold Driver.stageFor at hok ⊢
  split
  · exact .refl _
  next hsmall =>
  rw [if_neg hsmall] at hok
  dsimp only at hok ⊢
  generalize (if d.dev.stage.cpu ≠ 0 then d.free d.dev.stage else d) = d' at hdrop hok ⊢
  split
  · exact ⟨hdrop.read32, hdrop.write32, hdrop.submit, hdrop.ring, hdrop.ringLog2⟩
  next alloc halloc =>
  rw [halloc] at hok
  dsimp only at hok
  split
  next hbad =>
    rw [if_pos hbad] at hok
    exact absurd hok Bool.false_ne_true
  · exact ⟨hdrop.read32, hdrop.write32, hdrop.submit, hdrop.ring, hdrop.ringLog2⟩

/-- A size of two dimensions that are `int`s. -/
theorem size_toNat {x y : ℤ} (hx : 0 ≤ x) (hy : 0 ≤ y) (hx' : x < 2 ^ 31) (hy' : y < 2 ^ 31) :
    (BitVec.ofInt 64 x * BitVec.ofInt 64 y).toNat = x.toNat * y.toNat := by
  have hlt : x.toNat * y.toNat < 2 ^ 31 * 2 ^ 31 := by
    apply Nat.mul_lt_mul'' <;> omega
  rw [BitVec.toNat_mul, BitVec.toNat_ofInt, BitVec.toNat_ofInt, Int.emod_eq_of_lt hx (by omega),
    Int.emod_eq_of_lt hy (by omega)]
  exact Nat.mod_eq_of_lt (by omega)

/-- Operands and results of a call, as it hands them over. -/
structure Call.Sized (c : Call P) (A B : List ℤ) (out : P) : Prop where
  hA : c.A = some A
  hB : c.B = some B
  hC : c.C = some out
  lengthA : A.length = c.M.toNat * c.K.toNat
  lengthB : B.length = c.K.toNat * c.N.toNat
  M_lt : c.M < 2 ^ 31
  N_lt : c.N < 2 ^ 31
  K_lt : c.K < 2 ^ 31

variable {c : Call P} {A B : List ℤ} {out : P}

/-- What a publication leaves of the device. -/
theorem publish_dev (host : Host E P) (d : Driver E P) (c : Call P) (A B : List ℤ) (l : Layout) :
    (d.publish host c A B l).dev = { d.dev with next := d.dev.next + 1 } := by
  unfold Driver.publish Driver.wr
  dsimp only
  split
  · rfl
  · rfl

/-- A GEMM through the queue. -/
theorem queueGemm_product (T : ExactTile host result dev) (hsame : d.dev.Same dev) (hc : c.Sized A B out)
    (hok : (d.queueGemm host c).2 = true) :
    IsProduct c.M.toNat c.N.toNat c.K.toNat A B fun q =>
      BitVec.ofInt 32 ((result (d.queueGemm host c).1.env out).getD q 0) := by
  unfold Driver.queueGemm at hok ⊢
  by_cases hdead : d.dev.queueDead = true
  · rw [if_pos hdead] at hok
    exact absurd hok Bool.false_ne_true
  rw [if_neg hdead] at hok ⊢
  by_cases hbad : c.M ≤ 0 ∨ c.N ≤ 0 ∨ c.K ≤ 0 ∨ c.bank < 0 ∨ 0xFF < c.bank
  · rw [if_pos hbad] at hok
    exact absurd hok Bool.false_ne_true
  rw [if_neg hbad] at hok ⊢
  push Not at hbad
  obtain ⟨hM, hN, hK, -, -⟩ := hbad
  rw [hc.hA, hc.hB, hc.hC] at hok ⊢
  dsimp only at hok ⊢
  rw [size_toNat hM.le hK.le hc.M_lt hc.K_lt, size_toNat hK.le hN.le hc.K_lt hc.N_lt, ← hc.lengthA,
    ← hc.lengthB, List.take_length, List.take_length] at hok ⊢
  by_cases hfits : (!(A.all fits && B.all fits)) = true
  · rw [if_pos hfits] at hok
    exact absurd hok Bool.false_ne_true
  rw [if_neg hfits] at hok ⊢
  by_cases hfull : (1 : U32) <<< d.dev.ringLog2.toNat ≤ d.dev.next - d.dev.ended
  · rw [if_pos hfull] at hok
    exact absurd hok Bool.false_ne_true
  rw [if_neg hfull] at hok ⊢
  have hall : A.all fits = true ∧ B.all fits = true := by simpa using hfits
  have hthere : (d.stageFor c.layout.bytes).2 = true → (d.stageFor c.layout.bytes).1.dev.Same d.dev :=
    stageFor_same
  have hlayout : PtaChiplet.layout (BitVec.ofInt 64 c.M * BitVec.ofInt 64 c.K)
    (BitVec.ofInt 64 c.K * BitVec.ofInt 64 c.N) (BitVec.ofInt 64 c.M * BitVec.ofInt 64 c.N) = c.layout := rfl
  rw [hlayout] at hok ⊢
  cases hstage : d.stageFor c.layout.bytes with
  | mk x there =>
    rw [hstage] at hok hthere
    cases there with
    | false => exact absurd hok Bool.false_ne_true
    | true =>
      have hx := (hthere rfl).trans hsame
      have hrung := T.rung x c A B hx hM hN hK hc.lengthA hc.lengthB hall.1 hall.2
      have hdev := publish_dev host x c A B c.layout
      have hsame' : (x.publish host c A B c.layout).dev.Same dev := by
        rw [hdev]
        exact ⟨hx.read32, hx.write32, hx.submit, hx.ring, hx.ringLog2⟩
      refine await_product T hsame' hrung out (size_toNat hM.le hN.le hc.M_lt hc.N_lt) ?_ hok
      rw [hdev]
      rfl

theorem idle_dev (d : Driver E P) : d.idle.1.dev = d.dev := by
  unfold Driver.idle Driver.rd
  cases d.dev.read32 with
  | none => rfl
  | some f => rfl

theorem waitIdle_dev (polls : ℕ) (d : Driver E P) : (d.waitIdle polls).1.dev = d.dev := by
  induction polls generalizing d with
  | zero => rfl
  | succ polls ih =>
    have hdev := idle_dev d
    unfold Driver.waitIdle
    split
    next x hx =>
      rw [hx] at hdev
      exact hdev
    next x hx =>
      rw [hx] at hdev
      exact (ih x).trans hdev

/-- The wait for the chiplet keeps a command that the link has taken. -/
theorem waitIdle_taken {cmd : Cmd P} (polls : ℕ) {d : Driver E P} (hsame : d.dev.Same dev)
    (htaken : T.Taken d.env cmd) : T.Taken (d.waitIdle polls).1.env cmd := by
  induction polls generalizing d with
  | zero => exact htaken
  | succ polls ih =>
    have hdev := idle_dev d
    have hidle : T.Taken d.idle.1.env cmd := by
      unfold Driver.idle Driver.rd
      cases hr : d.dev.read32 with
      | none => exact htaken
      | some f => exact T.taken_read f (hsame.read32 ▸ hr) _ _ _ htaken
    unfold Driver.waitIdle
    split
    next x hx =>
      rw [hx] at hidle
      exact hidle
    next x hx =>
      rw [hx] at hidle hdev
      exact ih (d := x) (by rw [hdev]; exact hsame) hidle

/-- A GEMM through the link. -/
theorem linkGemm_product (T : ExactTile host result dev) {submit : E → Cmd P → E × Bool}
    (hsubmit : d.dev.submit = some submit) (hsame : d.dev.Same dev) (hc : c.Sized A B out) (status : P)
    (hok : (d.linkGemm host submit status c).2 = true) :
    IsProduct c.M.toNat c.N.toNat c.K.toNat A B fun q =>
      BitVec.ofInt 32 ((result (d.linkGemm host submit status c).1.env out).getD q 0) := by
  have hdev := waitIdle_dev kMaxPolls d
  unfold Driver.linkGemm at hok ⊢
  cases hfirst : d.waitIdle kMaxPolls with
  | mk x idle =>
    rw [hfirst] at hok hdev
    cases idle with
    | false => exact absurd hok Bool.false_ne_true
    | true =>
      dsimp only at hok hdev ⊢
      cases hasked : submit (host.setStatus x.env status .pending) (c.cmd status) with
      | mk env took =>
        rw [hasked] at hok
        cases took with
        | false => exact absurd hok Bool.false_ne_true
        | true =>
          have htaken := T.taken submit (hsame.submit ▸ hsubmit) _ _ _ hasked
          have hx : ({ x with env := env } : Driver E P).dev.Same dev := by
            rw [← hdev] at hsame
            exact hsame
          have hstill := waitIdle_taken T kMaxPolls hx htaken
          dsimp only at hok ⊢
          unfold Driver.linkWait at hok ⊢
          cases hsecond : Driver.waitIdle kMaxPolls { x with env := env } with
          | mk y idle =>
            rw [hsecond] at hok hstill
            cases idle with
            | false => exact absurd hok Bool.false_ne_true
            | true =>
              dsimp only at hok hstill ⊢
              have hdone : host.status y.env status = .done := by
                unfold Driver.linkEnded at hok
                split at hok
                next h => exact h
                · exact absurd hok Bool.false_ne_true
                · exact absurd hok Bool.false_ne_true
              rw [hdone]
              exact T.taken_done y.env (c.cmd status) A B out status hstill hc.hA hc.hB hc.hC rfl hdone

/-- A GEMM that the driver reports as done is the product. -/
theorem gemm_product (T : ExactTile host result d.dev) (hc : c.Sized A B out) (status : P)
    (hok : (d.gemm host status c).2 = true) :
    IsProduct c.M.toNat c.N.toNat c.K.toNat A B fun q =>
      BitVec.ofInt 32 ((result (d.gemm host status c).1.env out).getD q 0) := by
  unfold Driver.gemm at hok ⊢
  generalize hx : ({ d with dev := { d.dev with refusedImpairments := 0, lastIndex := -1 } } : Driver E P) = x
    at hok ⊢
  have hsame : x.dev.Same d.dev := by
    rw [← hx]
    exact ⟨rfl, rfl, rfl, rfl, rfl⟩
  dsimp only at hok ⊢
  by_cases hwindow : (!x.dev.hasWindow) = true
  · rw [if_pos hwindow] at hok
    exact absurd hok Bool.false_ne_true
  rw [if_neg hwindow] at hok ⊢
  by_cases hpresent : (!x.dev.present) = true
  · rw [if_pos hpresent] at hok
    exact absurd hok Bool.false_ne_true
  rw [if_neg hpresent] at hok ⊢
  by_cases hqueue : x.dev.queue = true
  · rw [if_pos hqueue] at hok ⊢
    exact queueGemm_product T hsame hc hok
  rw [if_neg hqueue] at hok ⊢
  cases hsubmit : x.dev.submit with
  | none =>
    rw [hsubmit] at hok
    exact absurd hok Bool.false_ne_true
  | some submit =>
    rw [hsubmit] at hok
    exact linkGemm_product T hsubmit hsame hc status hok

end Product

end Grxcp.PtaChiplet
