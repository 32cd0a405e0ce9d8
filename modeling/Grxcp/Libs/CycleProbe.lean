import Grxcp.Lib.Runs
import Grxcp.Lib.Words
import Grxcp.Libs.Grxdnn

/-!
# The cycle probe of a handle

Each launch of a call is given an address inside the buffer that is attached, and the regions of a call
lie in it one after the other (`ProbeLaw`). The grxBLAS handle that attention keeps has a probe of its
own, which is set by an instrumented attention and by nothing else, so it outlives a detach; and the
slots are counted in `int`. The law holds along every run whose calls do not come to that
(`probe_law`): no attention without a probe after one with a probe, and no count that overflows.
-/

namespace Grxcp.Dnn

open Grxcp.Runtime Grxcp.Blas Words

/-! ## Counts that do not overflow -/

/-- The slots that `slots_for` counts, without overflow. -/
def slotCount (m n warp : ℤ) : ℤ :=
  if m ≤ 0 ∨ n ≤ 0 ∨ warp ≤ 0 then 0 else (m * n + warp - 1) / warp

theorem slotCount_nonneg (m n warp : ℤ) : 0 ≤ slotCount m n warp := by
  unfold slotCount
  split
  · exact le_rfl
  · next h =>
    have hmn : 0 ≤ m * n := by
      simp only [not_or, not_le] at h
      exact mul_nonneg h.1.le h.2.1.le
    exact Int.ediv_nonneg (by omega) (by omega)

theorem slotsFor_toInt {m n warp : Int32} (h : slotCount m.toInt n.toInt warp.toInt < 2 ^ 31) :
    (slotsFor m n warp).toInt = slotCount m.toInt n.toInt warp.toInt := by
  have hzero : (0 : Int32).toInt = 0 := rfl
  unfold slotsFor slotCount at *
  simp only [Int32.le_iff_toInt_le, hzero]
  split
  · rfl
  next hpos =>
  rw [if_neg hpos] at h
  simp only [not_or, not_le] at hpos
  obtain ⟨hm, hn, hw⟩ := hpos
  have hm' := m.toInt_lt
  have hn' := n.toInt_lt
  have hw' := warp.toInt_lt
  have hmn : m.toInt * n.toInt ≤ (2 ^ 31 - 1) * (2 ^ 31 - 1) :=
    mul_le_mul (by omega) (by omega) hn.le (by norm_num)
  have hmn0 : 0 ≤ m.toInt * n.toInt := mul_nonneg hm.le hn.le
  have hone : (1 : Int64).toInt = 1 := rfl
  have hmul : (m.toInt64 * n.toInt64).toInt = m.toInt * n.toInt := by
    rw [Int64.toInt_mul, Int32.toInt_toInt64, Int32.toInt_toInt64]
    exact Int.bmod_eq_of_le (by omega) (by omega)
  have hadd : (m.toInt64 * n.toInt64 + warp.toInt64).toInt = m.toInt * n.toInt + warp.toInt := by
    rw [Int64.toInt_add, hmul, Int32.toInt_toInt64]
    exact Int.bmod_eq_of_le (by omega) (by omega)
  have hsub : (m.toInt64 * n.toInt64 + warp.toInt64 - 1).toInt =
      m.toInt * n.toInt + warp.toInt - 1 := by
    rw [Int64.toInt_sub, hadd, hone]
    exact Int.bmod_eq_of_le (by omega) (by omega)
  have hdiv : ((m.toInt64 * n.toInt64 + warp.toInt64 - 1) / warp.toInt64).toInt =
      (m.toInt * n.toInt + warp.toInt - 1) / warp.toInt := by
    rw [Int64.toInt_div, hsub, Int32.toInt_toInt64, Int.tdiv_eq_ediv_of_nonneg (by omega)]
    have hle : (m.toInt * n.toInt + warp.toInt - 1) / warp.toInt ≤
        m.toInt * n.toInt + warp.toInt - 1 := Int.ediv_le_self _ (by omega)
    have hge : 0 ≤ (m.toInt * n.toInt + warp.toInt - 1) / warp.toInt :=
      Int.ediv_nonneg (by omega) (by omega)
    exact Int.bmod_eq_of_le (by omega) (by omega)
  rw [Int64.toInt_toInt32, hdiv]
  have hge : 0 ≤ (m.toInt * n.toInt + warp.toInt - 1) / warp.toInt :=
    Int.ediv_nonneg (by omega) (by omega)
  exact Int.bmod_eq_of_le (by omega) (by omega)

/-- The slots of a launch over rows, without overflow: one for each warp of its blocks. -/
def rowSlots (prop : DeviceProp) (rows : ℕ) : ℕ :=
  let warps := (warpsPerBlock prop).toNat
  (rows + warps - 1) / warps * warps

theorem warpsPerBlock_cases (prop : DeviceProp) :
    (warpsPerBlock prop).toNat = 4 ∨ (warpsPerBlock prop).toNat = 2 ∨
      (warpsPerBlock prop).toNat = 1 := by
  unfold warpsPerBlock
  dsimp only
  split
  · exact .inl rfl
  · split
    · exact .inr (.inl rfl)
    · exact .inr (.inr rfl)

theorem le_rowSlots (prop : DeviceProp) (rows : ℕ) : rows ≤ rowSlots prop rows := by
  unfold rowSlots
  dsimp only
  rcases warpsPerBlock_cases prop with h | h | h <;> rw [h] <;> omega

/-- The warps that a launch is counted with. -/
theorem warpsIn_toInt {rows : UInt32} {prop : DeviceProp} (hwarp : 0 < prop.warpSize.toInt)
    (hblock : prop.warpSize.toInt * 4 < 2 ^ 32) (hrows : 0 < rows.toNat)
    (h : rowSlots prop rows.toNat < 2 ^ 31) :
    (warpsIn (shapeFor rows prop) prop.warpSize.toUInt32).toInt32.toInt =
      rowSlots prop rows.toNat := by
  have hw : prop.warpSize.toUInt32.toNat = prop.warpSize.toInt.toNat := toUInt32_toNat hwarp.le
  have hle := le_rowSlots prop rows.toNat
  have hcases := warpsPerBlock_cases prop
  have hone : (1 : UInt32).toNat = 1 := rfl
  -- the blocks that cover the rows
  have hneeded : ((rows + warpsPerBlock prop - 1) / warpsPerBlock prop).toNat =
      (rows.toNat + (warpsPerBlock prop).toNat - 1) / (warpsPerBlock prop).toNat := by
    rw [UInt32.toNat_div, UInt32.toNat_sub, UInt32.toNat_add, hone]
    congr 1
    omega
  have hblocks : 0 < (rows.toNat + (warpsPerBlock prop).toNat - 1) / (warpsPerBlock prop).toNat := by
    apply Nat.div_pos <;> omega
  have hgrid : (shapeFor rows prop).grid.toNat =
      (rows.toNat + (warpsPerBlock prop).toNat - 1) / (warpsPerBlock prop).toNat := by
    unfold shapeFor
    dsimp only
    rw [if_neg, hneeded]
    intro hzero
    rw [hzero] at hneeded
    have hz : (0 : UInt32).toNat = 0 := rfl
    omega
  -- the block has room for its warps, so it has that many
  have hper : ((shapeFor rows prop).block / prop.warpSize.toUInt32).toNat =
      (warpsPerBlock prop).toNat := by
    show ((prop.warpSize.toUInt32 * warpsPerBlock prop) / prop.warpSize.toUInt32).toNat = _
    rw [UInt32.toNat_div, UInt32.toNat_mul, hw]
    have hmul : prop.warpSize.toInt.toNat * (warpsPerBlock prop).toNat < 2 ^ 32 := by
      rcases hcases with hc | hc | hc <;> rw [hc] <;> omega
    rw [Nat.mod_eq_of_lt hmul]
    exact Nat.mul_div_cancel_left _ (by omega)
  have hcount : (warpsIn (shapeFor rows prop) prop.warpSize.toUInt32).toNat =
      rowSlots prop rows.toNat := by
    unfold warpsIn
    rw [if_neg, UInt32.toNat_mul, hgrid, hper]
    · show _ % 2 ^ 32 = _
      exact Nat.mod_eq_of_lt (by unfold rowSlots at h; dsimp only at h; omega)
    · intro hzero
      rw [hzero] at hw
      have hz : (0 : UInt32).toNat = 0 := rfl
      omega
  rw [toInt32_toInt (by omega), hcount]

/-! ## Statements -/

/-- What is attached: the slots, null if nothing is, and how many. -/
structure Buffer where
  slots : UInt64 := 0
  capacity : Int32 := 0

/-- The buffer after a call: attaching a buffer without slots is refused. -/
def Buffer.after (b : Buffer) : Call → Buffer
  | .setCycleProbe slots capacity =>
    if slots = 0 then {} else if capacity ≤ 0 then b else { slots, capacity }
  | _ => b

/-- The address of one of the buffer's slots. -/
def Buffer.Has (b : Buffer) (address : UInt64) : Prop :=
  b.slots ≠ 0 ∧ ∃ i : ℕ, (i : ℤ) < b.capacity.toInt ∧
    address = b.slots + UInt64.ofNat i * sizeofSlot

/-- Two regions have no slot in common. -/
def Region.Apart (r r' : Region) : Prop :=
  r.offset.toInt + r.slots.toInt ≤ r'.offset.toInt ∨ r'.offset.toInt + r'.slots.toInt ≤ r.offset.toInt

/-- A region is within the slots from `low` to `high`. -/
structure Region.Within (r : Region) (low high : ℤ) : Prop where
  low : low ≤ r.offset.toInt
  slots : 0 ≤ r.slots.toInt
  high : r.offset.toInt + r.slots.toInt ≤ high

/-- Every launch of a call is off or writes in the attached buffer, and its regions are within the
capacity and apart. -/
structure ProbeLaw (b : Buffer) (o : Outcome) : Prop where
  address : ∀ l ∈ o.launched, l.cycles = 0 ∨ b.Has l.cycles
  within : ∀ r ∈ o.reserved, r.Within 0 b.capacity.toInt
  apart : o.reserved.Pairwise Region.Apart

/-- Counting on from `base`, no sum overflows up to the first that is above the capacity. -/
def Counted (capacity : ℤ) : ℤ → List ℤ → Prop
  | _, [] => True
  | base, n :: ns => base + n < 2 ^ 31 ∧ (base + n ≤ capacity → Counted capacity (base + n) ns)

/-- The slots of a launch over rows on a device. -/
def rowSlotsOn (M : Machine) (current : ℕ) (rows : ℕ) : ℕ :=
  match M.props current with
  | .error _ => 0
  | .ok prop => rowSlots prop rows

/-- The slots that a batch of GEMMs is given. -/
def gemmSlots (M : Machine) (m n batch : ℤ) : ℤ :=
  match M.props 0 with
  | .error _ => 0
  | .ok prop => slotCount m n prop.warpSize.toInt * batch

/-- A block of the device has less than 2^32 threads. -/
def BlockFits (M : Machine) (current : ℕ) : Prop :=
  ∀ prop, M.props current = .ok prop → prop.warpSize.toInt * 4 < 2 ^ 32

/-- With a probe attached, the slots of a call of one launch do not overflow. -/
def RowsCounted (M : Machine) (current : ℕ) (b : Buffer) (a : RowArgs) : Prop :=
  b.slots ≠ 0 → BlockFits M current ∧
    Counted b.capacity.toInt 0 [(rowSlotsOn M current a.rows.toInt.toNat : ℤ)]

/-- With a probe attached, the rows and slots of an attention do not overflow. -/
structure AttentionCounted (M : Machine) (current : ℕ) (b : Buffer) (a : AttentionArgs) : Prop where
  block : BlockFits M current
  heads : a.batch.toInt * a.heads.toInt < 2 ^ 31
  rows : gemmSlots M a.seqLen.toInt a.seqLen.toInt (a.batch.toInt * a.heads.toInt) ≤
      b.capacity.toInt → a.batch.toInt * a.heads.toInt * a.seqLen.toInt < 2 ^ 31
  slots : Counted b.capacity.toInt 0
    (gemmSlots M a.seqLen.toInt a.seqLen.toInt (a.batch.toInt * a.heads.toInt) ::
      (if a.mask then
        [(rowSlotsOn M current (a.batch.toInt * a.heads.toInt * a.seqLen.toInt).toNat : ℤ)]
      else []) ++
      [(rowSlotsOn M current (a.batch.toInt * a.heads.toInt * a.seqLen.toInt).toNat : ℤ),
        gemmSlots M a.headDim.toInt a.seqLen.toInt (a.batch.toInt * a.heads.toInt)])

/-- The call does not come to a defect: an attention without a probe finds none left on the handle's
grxBLAS handle, and a call with a probe counts its slots without overflow. -/
def Minds (M : Machine) (b : Buffer) (ctx : Context) : Call → Prop
  | .setCycleProbe _ _ => True
  | .setStream _ => True
  | .softmax current a _ _ => RowsCounted M current b a
  | .layerNorm current a _ _ => RowsCounted M current b a
  | .addBias current a _ _ => RowsCounted M current b a
  | .gelu current a _ _ => RowsCounted M current b a
  | .attention current a _ => a.refused = false →
      if b.slots = 0 then ∀ h, ctx.blas = some h → h.probe = 0
      else AttentionCounted M current b a

/-! ## The grxBLAS handle -/

/-- The handle keeps its probe, and every launch is off or has the probe's address. -/
structure KeepsProbe (address : UInt64) (o : Blas.Outcome) : Prop where
  probe : o.ctx.probe = address
  cycles : ∀ l ∈ launches o.issued, l.cycles = 0 ∨ l.cycles = address

section KeepsProbe

variable {M : Machine} {current : ℕ} {address : UInt64} {h : Blas.Context} {o : Blas.Outcome}

theorem launches_append (xs ys : List Issue) : launches (xs ++ ys) = launches xs ++ launches ys :=
  List.filterMap_append

theorem KeepsProbe.idle (hp : h.probe = address) (status : Blas.Status) :
    KeepsProbe address { ctx := h, status } :=
  ⟨hp, by simp [launches]⟩

theorem KeepsProbe.andThen {f : Blas.Context → Blas.Outcome} (ho : KeepsProbe address o)
    (hf : ∀ h, h.probe = address → KeepsProbe address (f h)) :
    KeepsProbe address (o.andThen f) := by
  unfold Blas.Outcome.andThen
  split
  · obtain ⟨hprobe, hcycles⟩ := hf o.ctx ho.probe
    refine ⟨hprobe, fun l hl => ?_⟩
    rw [launches_append, List.mem_append] at hl
    exact hl.elim (ho.cycles l) (hcycles l)
  · exact ho

theorem withShape_probe (h : Blas.Context) (shape : SgemmShape) :
    (h.withShape shape).probe = h.probe := by
  unfold Blas.Context.withShape
  dsimp only
  split_ifs <;> rfl

theorem keepsProbe_readSgemmShape (hp : h.probe = address) (module : Blas.Module)
    (r : Blas.LoadReplies) : KeepsProbe address (readSgemmShape M h module r) := by
  unfold readSgemmShape
  split
  · exact .idle hp _
  cases M.props 0 with
  | error e => exact .idle hp _
  | ok prop =>
    dsimp only
    split
    · exact .idle hp _
    split
    · exact .idle hp _
    split
    · refine ⟨by rw [withShape_probe, hp], ?_⟩
      simp [launches, shapeLaunch]
    · refine ⟨hp, ?_⟩
      simp [launches, shapeLaunch]

theorem keepsProbe_ensureModule (hp : h.probe = address) (r : Blas.LoadReplies) :
    KeepsProbe address (Blas.ensureModule M current h r) := by
  unfold Blas.ensureModule
  cases h.module with
  | some module => exact .idle hp _
  | none =>
    cases r.module with
    | none => exact .idle hp _
    | some module =>
      apply keepsProbe_readSgemmShape
      exact hp

theorem keepsProbe_launchSgemm (hp : h.probe = address) (s : SgemmArgs) (force : Forced)
    (refused : Option GrxError) : KeepsProbe address (launchSgemm M h s force refused) := by
  unfold launchSgemm
  cases M.props 0 with
  | error e => exact .idle hp _
  | ok prop =>
    dsimp only
    split
    · exact .idle hp _
    · refine ⟨hp, ?_⟩
      simp [launches, hp]

theorem keepsProbe_sgemm (hp : h.probe = address) (s : SgemmArgs) (r : Blas.LoadReplies)
    (force : Forced) (refused : Option GrxError) :
    KeepsProbe address (sgemmBatched M current h s r force refused) := by
  unfold sgemmBatched
  split_ifs
  any_goals exact .idle hp _
  all_goals
    exact (keepsProbe_ensureModule hp r).andThen
      fun h hp => keepsProbe_launchSgemm hp s force refused

end KeepsProbe

/-! ## A stage of a call -/

/-- The handle has the buffer attached. -/
structure Holds (b : Buffer) (ctx : Context) : Prop where
  probe : ctx.probe = b.slots
  capacity : ctx.probeCapacity = b.capacity

/-- A grxBLAS handle has no other probe than one in the buffer. -/
def Buffer.Clean (b : Buffer) (h : Blas.Context) : Prop :=
  h.probe = 0 ∨ b.Has h.probe

/-- What a part of a call does when its regions begin at `low` and end at `high`. -/
structure Stage (b : Buffer) (o : Outcome) (low high : ℤ) : Prop where
  holds : Holds b o.ctx
  address : ∀ l ∈ o.launched, l.cycles = 0 ∨ b.Has l.cycles
  within : ∀ r ∈ o.reserved, r.Within low high
  apart : o.reserved.Pairwise Region.Apart

/-- A part of a call has its regions from `low` on within the capacity, and if it succeeds, `P` holds of
where they end and of the handle. -/
def Ends (b : Buffer) (o : Outcome) (low : ℤ) (P : ℤ → Context → Prop) : Prop :=
  ∃ high, low ≤ high ∧ high ≤ b.capacity.toInt ∧ Stage b o low high ∧
    (o.status = .success → P high o.ctx)

section Stage

variable {M : Machine} {current : ℕ} {b : Buffer} {ctx : Context} {o : Outcome} {low : ℤ}
  {P Q : ℤ → Context → Prop}

theorem Ends.idle (h : Holds b ctx) (hlow : low ≤ b.capacity.toInt) (status : Status)
    (hP : status = .success → P low ctx) : Ends b { ctx, status } low P :=
  ⟨low, le_rfl, hlow, ⟨h, by simp, by simp, .nil⟩, hP⟩

theorem Ends.mono (h : Ends b o low P) (hPQ : ∀ high, P high o.ctx → Q high o.ctx) :
    Ends b o low Q := by
  obtain ⟨high, hle, hcap, hstage, hP⟩ := h
  exact ⟨high, hle, hcap, hstage, fun hs => hPQ high (hP hs)⟩

/-- The next part takes its regions up where this one ends. -/
theorem Ends.andThen {f : Context → Outcome} (h : Ends b o low P)
    (hf : ∀ mid, low ≤ mid → mid ≤ b.capacity.toInt → Holds b o.ctx → P mid o.ctx →
      Ends b (f o.ctx) mid Q) : Ends b (o.andThen f) low Q := by
  obtain ⟨mid, hle, hcap, hstage, hP⟩ := h
  unfold Outcome.andThen
  by_cases hs : o.status = .success
  · obtain ⟨high, hle', hcap', hstage', hQ⟩ := hf mid hle hcap hstage.holds (hP hs)
    rw [if_pos hs]
    refine ⟨high, hle.trans hle', hcap', ⟨hstage'.holds, ?_, ?_, ?_⟩, hQ⟩
    · intro l hl
      exact (List.mem_append.mp hl).elim (hstage.address l) (hstage'.address l)
    · intro r hr
      rcases List.mem_append.mp hr with hr | hr
      · obtain ⟨hl, hn, hh⟩ := hstage.within r hr
        exact ⟨hl, hn, hh.trans hle'⟩
      · obtain ⟨hl, hn, hh⟩ := hstage'.within r hr
        exact ⟨hle.trans hl, hn, hh⟩
    · refine List.pairwise_append.mpr ⟨hstage.apart, hstage'.apart, ?_⟩
      intro r hr r' hr'
      exact .inl ((hstage.within r hr).high.trans (hstage'.within r' hr').low)
  · rw [if_neg hs]
    exact ⟨mid, hle, hcap, hstage, fun h => absurd h hs⟩

/-- A call whose regions begin at the start of the buffer keeps the law. -/
theorem Ends.law (h : Ends b o 0 P) : ProbeLaw b o := by
  obtain ⟨high, -, hcap, hstage, -⟩ := h
  refine ⟨hstage.address, fun r hr => ?_, hstage.apart⟩
  obtain ⟨hl, hn, hh⟩ := hstage.within r hr
  exact ⟨hl, hn, hh.trans hcap⟩

theorem slotAddress_eq {probe : UInt64} {base : Int32} (hbase : 0 ≤ base.toInt) :
    slotAddress probe base = probe + UInt64.ofNat base.toInt.toNat * sizeofSlot := by
  have hlt := base.toInt_lt
  have hle : (0 : Int64) ≤ base.toInt64 := by
    rw [Int64.le_iff_toInt_le, Int32.toInt_toInt64]
    exact hbase
  have hcast : base.toInt64.toUInt64 = UInt64.ofNat base.toInt.toNat := by
    apply UInt64.toNat.inj
    rw [Int64.toNat_toUInt64_of_le hle, UInt64.toNat_ofNat']
    show base.toInt64.toInt.toNat = _
    rw [Int32.toInt_toInt64, Nat.mod_eq_of_lt]
    omega
  rw [slotAddress, hcast]

theorem Buffer.has_slotAddress {base : Int32} (hb : b.slots ≠ 0) (hbase : 0 ≤ base.toInt)
    (hlt : base.toInt < b.capacity.toInt) : b.Has (slotAddress b.slots base) :=
  ⟨hb, base.toInt.toNat, by omega, slotAddress_eq hbase⟩

/-- The slots of a part of a call: `n` of them are counted from `base` on without overflow, and none
where nothing is attached. -/
structure Slots (b : Buffer) (base : Int32) (n : ℤ) : Prop where
  base_nonneg : 0 ≤ base.toInt
  base_le : base.toInt ≤ b.capacity.toInt
  nonneg : 0 ≤ n
  off : b.slots = 0 → n = 0
  sum : base.toInt + n < 2 ^ 31

/-- What a launch over rows reserves. -/
theorem launchRows_ends (M : Machine) (current : ℕ) {n : ℤ} (rows : UInt32)
    (offset : Option Int32) (hh : Holds b ctx) (hn : Slots b (offset.getD 0) n)
    (hon : b.slots ≠ 0 →
      BlockFits M current ∧ 0 < rows.toNat ∧ n = rowSlotsOn M current rows.toNat)
    (kernel : DnnKernel) (name : String) (refused : Option GrxError) :
    Ends b (launchRows M current ctx kernel name rows offset refused).1 (offset.getD 0).toInt
      fun high ctx' => high = (offset.getD 0).toInt + n ∧
        (launchRows M current ctx kernel name rows offset refused).2.toInt = high ∧
        ctx'.blas = ctx.blas := by
  obtain ⟨hbase, hcap, hn0, hoff, hsum⟩ := hn
  unfold launchRows launchShape attachProbe
  cases hprops : M.props current with
  | error e => exact .idle hh hcap _ (by simp)
  | ok prop =>
    by_cases hwarp : prop.warpSize ≤ 0
    · simp only [hwarp, if_true]
      exact .idle hh hcap _ (by simp)
    simp only [hwarp, if_false]
    by_cases hslots : b.slots = 0
    · rw [if_pos (hh.probe.trans hslots), hoff hslots]
      exact ⟨_, le_rfl, hcap, ⟨hh, by simp [Launch.cycles], by simp, .nil⟩, fun _ => by simp⟩
    · obtain ⟨hfits, hrows, rfl⟩ := hon hslots
      have hcount : rowSlotsOn M current rows.toNat = rowSlots prop rows.toNat := by
        simp [rowSlotsOn, hprops]
      rw [hcount] at hsum ⊢
      have hpos : 0 < prop.warpSize.toInt := by
        rw [Int32.le_iff_toInt_le] at hwarp
        exact not_le.mp hwarp
      have hw := warpsIn_toInt hpos (hfits prop hprops) hrows (by omega)
      have hadd := int32_add_of_range (a := offset.getD 0)
        (b := (warpsIn (shapeFor rows prop) prop.warpSize.toUInt32).toInt32) (by omega) (by omega)
      rw [hw] at hadd
      rw [if_neg (by rw [hh.probe]; exact hslots)]
      by_cases hfull : ctx.probeCapacity <
          offset.getD 0 + (warpsIn (shapeFor rows prop) prop.warpSize.toUInt32).toInt32
      · rw [if_pos hfull]
        exact .idle hh hcap _ (by simp)
      rw [if_neg hfull]
      rw [Int32.lt_iff_toInt_lt, hh.capacity, hadd] at hfull
      have hrow := le_rowSlots prop rows.toNat
      refine ⟨_, by omega, by omega, ⟨⟨hh.probe, hh.capacity⟩, ?_, ?_, by simp⟩,
        fun _ => ⟨rfl, hadd, rfl⟩⟩
      · intro l hl
        obtain rfl := List.mem_singleton.mp hl
        right
        show b.Has (slotAddress ctx.probe _)
        rw [hh.probe]
        exact Buffer.has_slotAddress hslots hbase (by omega)
      · intro r hr
        obtain rfl := List.mem_singleton.mp hr
        refine ⟨le_rfl, ?_, ?_⟩
        · show 0 ≤ (warpsIn (shapeFor rows prop) prop.warpSize.toUInt32).toInt32.toInt
          omega
        · show (offset.getD 0).toInt +
            (warpsIn (shapeFor rows prop) prop.warpSize.toUInt32).toInt32.toInt ≤ _
          omega

/-- What a GEMM reserves, and launches. The grxBLAS handle's probe matters where the GEMM does not set
it: without a probe, and where no slots are left for it. -/
theorem reserveGemm_ends (M : Machine) (current : ℕ) {n : ℤ} {need base next : Int32}
    {name : String} {h h' : Blas.Context}
    {ctx' : Context} {rs : List Region} (hh : Holds b ctx)
    (hblas : b.slots = 0 ∨ base.toInt = b.capacity.toInt → b.Clean h) (hn : Slots b base n)
    (hon : b.slots ≠ 0 → need.toInt = n)
    (hres : reserveGemm ctx h need base name = .ok (ctx', h', rs, next)) (s : SgemmArgs)
    (r : Blas.LoadReplies) (force : Forced) (refused : Option GrxError) :
    next.toInt = base.toInt + n ∧
      Ends b (attentionGemm M current ctx' h' rs s r force refused) base.toInt
        fun high ctx' => high = base.toInt + n ∧ ∀ g, ctx'.blas = some g → b.Clean g := by
  obtain ⟨hbase, hcap, hn0, hoff, hsum⟩ := hn
  -- the GEMM's launches have the probe that its handle has
  have hgemm : ∀ {high : ℤ}, ctx'.probe = b.slots → ctx'.probeCapacity = b.capacity →
      b.Clean h' → (∀ r ∈ rs, r.Within base.toInt high) → rs.Pairwise Region.Apart →
      Stage b (attentionGemm M current ctx' h' rs s r force refused) base.toInt high := by
    intro high hprobe hcapacity hh' hwithin hapart
    have hkeeps : KeepsProbe h'.probe (sgemmBatched M current h' s r force refused) :=
      keepsProbe_sgemm rfl s r force refused
    refine ⟨⟨hprobe, hcapacity⟩, fun l hl => ?_, hwithin, hapart⟩
    obtain ⟨l', hl', rfl⟩ := List.mem_map.mp hl
    show l'.cycles = 0 ∨ b.Has l'.cycles
    rcases hkeeps.cycles l' hl' with hzero | heq
    · exact .inl hzero
    · rw [heq]
      exact hh'
  have hclean : b.Clean h' → ∀ g,
      (attentionGemm M current ctx' h' rs s r force refused).ctx.blas = some g → b.Clean g := by
    intro hh' g hg
    obtain rfl := Option.some.inj hg
    have hkeeps : KeepsProbe h'.probe (sgemmBatched M current h' s r force refused) :=
      keepsProbe_sgemm rfl s r force refused
    unfold Buffer.Clean
    rw [hkeeps.probe]
    exact hh'
  unfold reserveGemm at hres
  by_cases hslots : b.slots = 0
  · rw [if_pos (hh.probe.trans hslots)] at hres
    cases hres
    rw [hoff hslots, add_zero]
    have hh' := hblas (.inl hslots)
    exact ⟨rfl, _, le_rfl, hcap, hgemm hh.probe hh.capacity hh' (by simp) .nil,
      fun _ => ⟨rfl, hclean hh'⟩⟩
  · have hneed := hon hslots
    have hadd := int32_add_of_range (a := base) (b := need) (by omega) (by omega)
    rw [hneed] at hadd
    rw [if_neg (by rw [hh.probe]; exact hslots)] at hres
    split at hres
    · cases hres
    next hfull =>
    cases hres
    rw [Int32.lt_iff_toInt_lt, hh.capacity, hadd] at hfull
    have hh' : b.Clean (Blas.grxblasSetCycleProbe h (slotAddress ctx.probe base)
        (ctx.probeCapacity - base)).ctx := by
      have hsub := int32_sub_of_range (a := ctx.probeCapacity) (b := base)
        (by rw [hh.capacity]; omega) (by rw [hh.capacity]; have := b.capacity.toInt_lt; omega)
      rw [hh.capacity] at hsub
      have hzero : (0 : Int32).toInt = 0 := rfl
      unfold Blas.grxblasSetCycleProbe
      simp only [hh.capacity, Int32.le_iff_toInt_le, hsub, hzero]
      split
      next hnone =>
        -- a probe for no slots is refused, and the one before it stays
        exact hblas (.inr (by omega))
      next hset =>
        by_cases hnull : slotAddress ctx.probe base = 0
        · exact .inl hnull
        · right
          show b.Has (slotAddress ctx.probe base)
          have hrest : ¬ b.capacity.toInt - base.toInt ≤ 0 := fun hle => hset ⟨hnull, hle⟩
          rw [hh.probe]
          exact Buffer.has_slotAddress hslots hbase (by omega)
    refine ⟨hadd, _, by omega, by omega, hgemm hh.probe hh.capacity hh' ?_ (by simp),
      fun _ => ⟨rfl, hclean hh'⟩⟩
    intro r hr
    obtain rfl := List.mem_singleton.mp hr
    exact ⟨le_rfl, by show 0 ≤ need.toInt; omega, by show base.toInt + need.toInt ≤ _; omega⟩

end Stage

/-! ## Attention -/

section Attention

variable {M : Machine} {current : ℕ} {b : Buffer} {ctx : Context} {a : AttentionArgs}

/-- What an attention call counts: the slots of its GEMMs, and of the mask and the softmax. -/
structure Counts (M : Machine) (current : ℕ) (b : Buffer) (a : AttentionArgs) where
  scores : ℤ
  mask : ℤ
  softmax : ℤ
  out : ℤ
  nonneg : 0 ≤ scores ∧ 0 ≤ mask ∧ 0 ≤ softmax ∧ 0 ≤ out
  off : b.slots = 0 → scores = 0 ∧ mask = 0 ∧ softmax = 0 ∧ out = 0
  scores_lt : scores < 2 ^ 31
  mask_lt : scores ≤ b.capacity.toInt → scores + mask < 2 ^ 31
  softmax_lt : scores + mask ≤ b.capacity.toInt → scores + mask + softmax < 2 ^ 31
  out_lt : scores + mask + softmax ≤ b.capacity.toInt → scores + mask + softmax + out < 2 ^ 31
  no_mask : a.mask = false → mask = 0
  scores_eq : b.slots ≠ 0 →
    (grxblasCycleSlotsNeeded M a.seqLen a.seqLen * (a.batch * a.heads)).toInt = scores
  out_eq : b.slots ≠ 0 → scores + mask + softmax ≤ b.capacity.toInt →
    (grxblasCycleSlotsNeeded M a.headDim a.seqLen * (a.batch * a.heads)).toInt = out
  rows : b.slots ≠ 0 → scores ≤ b.capacity.toInt → BlockFits M current ∧
    0 < ((a.batch * a.heads).toUInt32 * a.seqLen.toUInt32).toNat ∧
    (a.mask = true →
      mask = rowSlotsOn M current ((a.batch * a.heads).toUInt32 * a.seqLen.toUInt32).toNat) ∧
    softmax = rowSlotsOn M current ((a.batch * a.heads).toUInt32 * a.seqLen.toUInt32).toNat

theorem AttentionArgs.pos (h : a.refused = false) :
    0 < a.batch.toInt ∧ 0 < a.heads.toInt ∧ 0 < a.seqLen.toInt ∧ 0 < a.headDim.toInt := by
  have hzero : (0 : Int32).toInt = 0 := rfl
  unfold AttentionArgs.refused at h
  simp only [Bool.or_eq_false_iff, decide_eq_false_iff_not, Int32.le_iff_toInt_le, hzero,
    not_le] at h
  exact ⟨h.1.1.1.2.1.1.1, h.1.1.1.2.1.1.2, h.1.1.1.2.1.2, h.1.1.1.2.2⟩

/-- The slots that the GEMMs are given, when they do not overflow. -/
theorem gemmNeed_toInt (m n : Int32) {nheads : Int32} (hpos : 0 < nheads.toInt)
    (h : gemmSlots M m.toInt n.toInt nheads.toInt < 2 ^ 31) :
    (grxblasCycleSlotsNeeded M m n * nheads).toInt = gemmSlots M m.toInt n.toInt nheads.toInt ∧
      0 ≤ gemmSlots M m.toInt n.toInt nheads.toInt := by
  unfold grxblasCycleSlotsNeeded gemmSlots at *
  cases hprops : M.props 0 with
  | error e =>
    refine ⟨?_, le_rfl⟩
    simp
  | ok prop =>
    rw [hprops] at h
    dsimp only at h ⊢
    have hnonneg := slotCount_nonneg m.toInt n.toInt prop.warpSize.toInt
    have hle : slotCount m.toInt n.toInt prop.warpSize.toInt ≤
        slotCount m.toInt n.toInt prop.warpSize.toInt * nheads.toInt :=
      le_mul_of_one_le_right hnonneg hpos
    have hslots : (slotsFor m n prop.warpSize).toInt = _ := slotsFor_toInt (by omega)
    have hmul := int32_mul_of_range (a := slotsFor m n prop.warpSize) (b := nheads)
      (by rw [hslots]; omega) (by rw [hslots]; exact h)
    rw [hslots] at hmul
    exact ⟨hmul, by omega⟩

/-- Without a probe there is nothing to count. -/
def Counts.none (hb : b.slots = 0) : Counts M current b a where
  scores := 0
  mask := 0
  softmax := 0
  out := 0
  nonneg := ⟨le_rfl, le_rfl, le_rfl, le_rfl⟩
  off := fun _ => ⟨rfl, rfl, rfl, rfl⟩
  scores_lt := by norm_num
  mask_lt := by norm_num
  softmax_lt := by norm_num
  out_lt := by norm_num
  no_mask := fun _ => rfl
  scores_eq := fun h => absurd hb h
  out_eq := fun h => absurd hb h
  rows := fun h => absurd hb h

/-- With a probe, the counts are what the code counts where none of them overflows. -/
theorem AttentionCounted.counts (h : AttentionCounted M current b a) (hb : b.slots ≠ 0)
    (ha : a.refused = false) : Nonempty (Counts M current b a) := by
  obtain ⟨hbatch, hheads, hseq, hdim⟩ := AttentionArgs.pos ha
  have hprod : 0 < a.batch.toInt * a.heads.toInt := mul_pos hbatch hheads
  have hnheads : (a.batch * a.heads).toInt = a.batch.toInt * a.heads.toInt :=
    int32_mul_of_range (by omega) h.heads
  have hslots := h.slots
  have hpos : 0 < (a.batch * a.heads).toInt := by omega
  have hscores := gemmNeed_toInt (M := M) a.seqLen a.seqLen hpos
    (by rw [hnheads]; simpa using hslots.1)
  rw [hnheads] at hscores
  have hrows : gemmSlots M a.seqLen.toInt a.seqLen.toInt (a.batch.toInt * a.heads.toInt) ≤
      b.capacity.toInt → ((a.batch * a.heads).toUInt32 * a.seqLen.toUInt32).toNat =
        (a.batch.toInt * a.heads.toInt * a.seqLen.toInt).toNat := by
    intro hle
    have hlt := h.rows hle
    rw [UInt32.toNat_mul, toUInt32_toNat (by omega), toUInt32_toNat hseq.le, hnheads,
      ← Int.toNat_mul hprod.le hseq.le]
    exact Nat.mod_eq_of_lt (by omega)
  have hrowsPos : 0 < a.batch.toInt * a.heads.toInt * a.seqLen.toInt := mul_pos hprod hseq
  set n := gemmSlots M a.seqLen.toInt a.seqLen.toInt (a.batch.toInt * a.heads.toInt) with hn
  set w := (rowSlotsOn M current (a.batch.toInt * a.heads.toInt * a.seqLen.toInt).toNat : ℤ) with hw
  set n' := gemmSlots M a.headDim.toInt a.seqLen.toInt (a.batch.toInt * a.heads.toInt) with hn'
  have hw0 : 0 ≤ w := Int.natCast_nonneg _
  have hn'0 : 0 ≤ n' := by
    rw [hn']
    unfold gemmSlots
    split
    · exact le_rfl
    · exact mul_nonneg (slotCount_nonneg _ _ _) hprod.le
  -- the sums, up to the first that does not fit
  have hsums : n < 2 ^ 31 ∧ (n ≤ b.capacity.toInt → n + (if a.mask then w else 0) < 2 ^ 31) ∧
      (n + (if a.mask then w else 0) ≤ b.capacity.toInt →
        n + (if a.mask then w else 0) + w < 2 ^ 31) ∧
      (n + (if a.mask then w else 0) + w ≤ b.capacity.toInt →
        n + (if a.mask then w else 0) + w + n' < 2 ^ 31) := by
    cases hmask : a.mask with
    | true =>
      rw [hmask] at hslots
      obtain ⟨h₁, h₂⟩ := hslots
      simp only [zero_add] at h₁ h₂
      simp only [if_true]
      refine ⟨h₁, fun hle => (h₂ hle).1, fun hle => ((h₂ (by omega)).2 hle).1, fun hle => ?_⟩
      exact (((h₂ (by omega)).2 (by omega)).2 hle).1
    | false =>
      rw [hmask] at hslots
      obtain ⟨h₁, h₂⟩ := hslots
      simp only [zero_add] at h₁ h₂
      simp only [Bool.false_eq_true, if_false, add_zero]
      exact ⟨h₁, fun hle => by omega, fun hle => (h₂ hle).1,
        fun hle => ((h₂ (by omega)).2 hle).1⟩
  have hmask0 : 0 ≤ if a.mask then w else 0 := by split <;> omega
  refine ⟨
    { scores := n, mask := if a.mask then w else 0, softmax := w, out := n'
      nonneg := ⟨hscores.2, hmask0, hw0, hn'0⟩
      off := fun hoff => absurd hoff hb
      scores_lt := hsums.1
      mask_lt := hsums.2.1
      softmax_lt := hsums.2.2.1
      out_lt := hsums.2.2.2
      no_mask := fun hmask => by simp [hmask]
      scores_eq := fun _ => hscores.1
      out_eq := ?_
      rows := ?_ }⟩
  · intro _ hle
    have hsum := hsums.2.2.2 hle
    have hn0 := hscores.2
    have hlt : n' < 2 ^ 31 := by
      generalize (if a.mask then w else 0) = m at hmask0 hsum
      omega
    have hout := gemmNeed_toInt (M := M) a.headDim a.seqLen hpos (by rw [hnheads]; exact hlt)
    rw [hnheads] at hout
    exact hout.1
  · intro _ hle
    rw [hrows hle]
    exact ⟨h.block, by omega, fun hmask => by simp [hmask, hw], hw⟩

theorem reserveGemm_error {h : Blas.Context} {need base : Int32} {name : String} {status : Status}
    (hres : reserveGemm ctx h need base name = .error status) : status ≠ .success := by
  unfold reserveGemm at hres
  split_ifs at hres
  obtain rfl := Except.error.inj hres
  exact nofun

theorem attentionScores_ends (c : Counts M current b a) (hcap : 0 ≤ b.capacity.toInt)
    {h : Blas.Context} (hh : Holds b ctx)
    (hblas : b.slots = 0 ∨ b.capacity.toInt = 0 → b.Clean h) (r : AttentionReplies) :
    Ends b (attentionScores M current ctx h a r).1 0 fun high ctx' =>
      high = c.scores + c.mask ∧ (attentionScores M current ctx h a r).2.toInt = high ∧
        ∀ g, ctx'.blas = some g → b.Clean g := by
  have hzero : (0 : Int32).toInt = 0 := rfl
  have hn : Slots b 0 c.scores :=
    ⟨le_rfl, hcap, c.nonneg.1, fun hoff => (c.off hoff).1, by have := c.scores_lt; omega⟩
  unfold attentionScores
  dsimp only
  split
  next status hres =>
    exact ⟨0, le_rfl, hcap, ⟨⟨hh.probe, hh.capacity⟩, by simp, by simp, .nil⟩,
      fun hs => absurd hs (reserveGemm_error hres)⟩
  next ctx' h' rs next hres =>
    obtain ⟨hnext, hgemm⟩ := reserveGemm_ends M current hh
      (fun hor : b.slots = 0 ∨ (0 : Int32).toInt = b.capacity.toInt =>
        hblas (hor.imp_right Eq.symm)) hn c.scores_eq hres
      (scoresGemm a (a.batch * a.heads)) r.blas r.force r.gemm
    rw [hzero, zero_add] at hnext hgemm
    split
    next hmask =>
      dsimp only
      apply hgemm.andThen
      rintro mid - hmid hholds ⟨rfl, hclean⟩
      have hrows := launchRows_ends M current (n := c.mask)
        ((a.batch * a.heads).toUInt32 * a.seqLen.toUInt32) (some next) hholds
        ⟨by show 0 ≤ next.toInt; have := c.nonneg.1; omega, by show next.toInt ≤ _; omega,
          c.nonneg.2.1, fun hoff => (c.off hoff).2.1,
          by show next.toInt + _ < _; have := c.mask_lt hmid; omega⟩
        (fun hslots => by
          obtain ⟨hfits, hpos, heq, -⟩ := c.rows hslots hmid
          exact ⟨hfits, hpos, heq hmask.2⟩)
        .causalMask "causal mask" r.mask
      have hoffset : ((some next).getD 0).toInt = c.scores := hnext
      rw [hoffset] at hrows
      refine hrows.mono fun high hhigh => ⟨hhigh.1, hhigh.2.1, fun g hg => ?_⟩
      exact hclean g (hhigh.2.2.symm.trans hg)
    next hmask =>
      -- without a mask the softmax comes next
      obtain ⟨high, hle, hhigh, hstage, hP⟩ := hgemm
      refine ⟨high, hle, hhigh, hstage, fun hs => ?_⟩
      have hno : a.mask = false := by
        by_contra hno
        exact hmask ⟨hs, by simpa using hno⟩
      obtain ⟨rfl, hclean⟩ := hP hs
      rw [c.no_mask hno, add_zero]
      exact ⟨rfl, hnext, hclean⟩

theorem attentionOut_ends (c : Counts M current b a) (hh : Holds b ctx)
    (hclean : ∀ g, ctx.blas = some g → b.Clean g) {base : Int32}
    (hbase : base.toInt = c.scores + c.mask) (hle : base.toInt ≤ b.capacity.toInt)
    (r : AttentionReplies) :
    Ends b (attentionOut M current ctx base a r) base.toInt fun _ _ => True := by
  obtain ⟨hn0, hm0, hs0, ho0⟩ := c.nonneg
  have hrows := launchRows_ends M current (n := c.softmax)
    ((a.batch * a.heads).toUInt32 * a.seqLen.toUInt32) (some base) hh
    ⟨by show 0 ≤ base.toInt; omega, hle, hs0, fun hoff => (c.off hoff).2.2.1,
      by show base.toInt + _ < _; have := c.softmax_lt (by omega); omega⟩
    (fun hslots => by
      obtain ⟨hfits, hpos, -, heq⟩ := c.rows hslots (by omega)
      exact ⟨hfits, hpos, heq⟩)
    .softmax "softmax" r.softmax
  have hoffset : ((some base).getD 0).toInt = base.toInt := rfl
  rw [hoffset] at hrows
  unfold attentionOut
  dsimp only
  apply hrows.andThen
  rintro mid hlow hmid hholds ⟨hend, hnext, hsame⟩
  rw [hsame]
  have hblas : b.Clean (ctx.blas.getD {}) := by
    cases hb : ctx.blas with
    | none => exact .inl rfl
    | some g => exact hclean g hb
  split
  · exact .idle hholds hmid _ fun _ => trivial
  next ctx' h' rs next hres =>
    have hgemm := (reserveGemm_ends M current hholds (fun _ => hblas)
      ⟨by omega, by omega, ho0, fun hoff => (c.off hoff).2.2.2,
        by have := c.out_lt (by omega); omega⟩
      (fun hslots => c.out_eq hslots (by omega)) hres (outGemm a (a.batch * a.heads)) r.blas
      r.force' r.gemm').2
    rw [hnext] at hgemm
    exact hgemm.mono fun _ _ => trivial

theorem ensureModule_ends (hcap : 0 ≤ b.capacity.toInt) (hh : Holds b ctx) (loaded : Option Module) :
    Ends b (ensureModule current ctx loaded) 0 fun high ctx' => high = 0 ∧ ctx'.blas = ctx.blas := by
  unfold ensureModule
  split
  · exact .idle hh hcap _ fun _ => ⟨rfl, rfl⟩
  · split
    · exact .idle hh hcap _ nofun
    · next module =>
      exact ⟨0, le_rfl, hcap, ⟨⟨hh.probe, hh.capacity⟩, by simp, by simp, .nil⟩, fun _ => ⟨rfl, rfl⟩⟩

/-- An attention call whose counts do not overflow, on a handle that has no other probe. -/
theorem attention_ends (c : a.refused = false → Counts M current b a) (hcap : 0 ≤ b.capacity.toInt)
    (hh : Holds b ctx)
    (hblas : a.refused = false → b.slots = 0 ∨ b.capacity.toInt = 0 →
      ∀ g, ctx.blas = some g → b.Clean g) (r : AttentionReplies) :
    Ends b (grxdnnAttentionForward M current ctx a r) 0 fun _ _ => True := by
  unfold grxdnnAttentionForward
  split
  · exact .idle hh hcap _ fun _ => trivial
  next hrefused =>
  have hargs : a.refused = false := by simpa using hrefused
  apply (ensureModule_ends hcap hh r.loaded).andThen
  rintro mid - - hholds ⟨rfl, hsame⟩
  generalize (ensureModule current ctx r.loaded).ctx = ctx₁ at hholds hsame ⊢
  split
  · exact .idle hholds hcap _ fun _ => trivial
  split
  · exact .idle hholds hcap _ fun _ => trivial
  dsimp only
  have hg : b.slots = 0 ∨ b.capacity.toInt = 0 →
      b.Clean (Blas.grxblasSetStream (ctx₁.blas.getD {}) ctx₁.stream) := by
    intro hor
    rw [hsame]
    cases hb : ctx.blas with
    | none => exact .inl rfl
    | some g => exact hblas hargs hor g hb
  have hholds₁ : Holds b { ctx₁ with
      blas := some (Blas.grxblasSetStream (ctx₁.blas.getD {}) ctx₁.stream), regions := [] } :=
    ⟨hholds.probe, hholds.capacity⟩
  have hscores := attentionScores_ends (c hargs) hcap hholds₁ hg r
  apply hscores.andThen
  rintro mid - hmid hholds' ⟨hend, hbase, hclean⟩
  rw [← hbase] at hmid ⊢
  exact attentionOut_ends (c hargs) hholds' hclean (by omega) hmid r

end Attention

/-! ## Calls -/

section Calls

variable {M : Machine} {current : ℕ} {b : Buffer} {ctx : Context}

/-- What is attached has slots. -/
def Buffer.Ok (b : Buffer) : Prop :=
  if b.slots = 0 then b.capacity = 0 else 0 < b.capacity.toInt

theorem Buffer.Ok.nonneg (h : b.Ok) : 0 ≤ b.capacity.toInt := by
  unfold Buffer.Ok at h
  split at h
  · rw [h]
    exact le_rfl
  · exact h.le

theorem Buffer.Ok.after (h : b.Ok) (c : Call) : (b.after c).Ok := by
  unfold Buffer.after
  cases c with
  | setCycleProbe slots capacity =>
    dsimp only
    split
    · rfl
    next hslots =>
    split
    · exact h
    next hcapacity =>
      rw [Int32.le_iff_toInt_le] at hcapacity
      unfold Buffer.Ok
      rw [if_neg hslots]
      exact not_le.mp hcapacity
  | _ => exact h

theorem forwardRows_ends {a : RowArgs} (h : RowsCounted M current b a) (hcap : 0 ≤ b.capacity.toInt)
    (hh : Holds b ctx) (kernel : DnnKernel) (name : String) (ok : Bool) (has : Module → Bool)
    (loaded : Option Module) (refused : Option GrxError) :
    Ends b (forwardRows M current ctx kernel name a ok has loaded refused) 0 fun _ _ => True := by
  have hzero : (0 : Int32).toInt = 0 := rfl
  unfold forwardRows
  split
  · exact .idle hh hcap _ fun _ => trivial
  split
  · exact .idle hh hcap _ fun _ => trivial
  next hshape =>
  split
  · exact .idle hh hcap _ fun _ => trivial
  split
  · exact .idle hh hcap _ fun _ => trivial
  have hpos : 0 < a.rows.toInt := by
    rw [Int32.le_iff_toInt_le, hzero] at hshape
    exact not_le.mp fun hle => hshape (.inl hle)
  have hrows : a.rows.toUInt32.toNat = a.rows.toInt.toNat := toUInt32_toNat hpos.le
  apply (ensureModule_ends hcap hh loaded).andThen
  rintro mid - - hholds ⟨rfl, -⟩
  split
  · exact .idle hholds hcap _ fun _ => trivial
  by_cases hslots : b.slots = 0
  · have hoff : Slots b 0 0 := ⟨le_rfl, hcap, le_rfl, fun _ => rfl, by rw [hzero]; norm_num⟩
    have hrow := launchRows_ends M current a.rows.toUInt32 none hholds hoff
      (fun hon => absurd hslots hon) kernel name refused
    exact hrow.mono fun _ _ => trivial
  · obtain ⟨hfits, hlt, -⟩ := h hslots
    rw [zero_add] at hlt
    have hon : Slots b 0 (rowSlotsOn M current a.rows.toInt.toNat) :=
      ⟨le_rfl, hcap, Int.natCast_nonneg _, fun hoff => absurd hoff hslots, by omega⟩
    have hrow := launchRows_ends M current a.rows.toUInt32 none hholds hon
      (fun _ => ⟨hfits, by omega, by rw [hrows]⟩) kernel name refused
    exact hrow.mono fun _ _ => trivial

theorem Holds.setCycleProbe (hh : Holds b ctx) (slots : UInt64) (capacity : Int32) :
    Holds (b.after (.setCycleProbe slots capacity))
      (grxdnnSetCycleProbe ctx slots capacity).ctx := by
  unfold grxdnnSetCycleProbe Buffer.after
  dsimp only
  by_cases hslots : slots = 0
  · simp only [hslots, ne_eq, not_true_eq_false, false_and, if_false, if_true]
    exact ⟨rfl, rfl⟩
  by_cases hcapacity : capacity ≤ 0
  · simp only [hslots, hcapacity, ne_eq, not_false_eq_true, and_self, if_false, if_true]
    exact hh
  · simp only [hslots, hcapacity, ne_eq, not_false_eq_true, and_false, if_false, if_true]
    exact ⟨rfl, rfl⟩

/-- A call that does not come to a defect has its regions in the buffer, one after the other. -/
theorem call_ends {c : Call} (h : Minds M b ctx c) (hok : b.Ok) (hh : Holds b ctx) :
    Ends (b.after c) (ctx.call M c) 0 fun _ _ => True := by
  have hcap := hok.nonneg
  cases c with
  | setCycleProbe slots capacity =>
    have hnone : (grxdnnSetCycleProbe ctx slots capacity).launched = [] ∧
        (grxdnnSetCycleProbe ctx slots capacity).reserved = [] := by
      unfold grxdnnSetCycleProbe
      split <;> exact ⟨rfl, rfl⟩
    refine ⟨0, le_rfl, (hok.after _).nonneg, ⟨hh.setCycleProbe slots capacity, ?_, ?_, ?_⟩,
      fun _ => trivial⟩
    · intro l hl
      exact absurd (hnone.1 ▸ hl) List.not_mem_nil
    · intro r hr
      exact absurd (hnone.2 ▸ hr) List.not_mem_nil
    · show (grxdnnSetCycleProbe ctx slots capacity).reserved.Pairwise _
      rw [hnone.2]
      exact .nil
  | setStream stream =>
    exact ⟨0, le_rfl, hcap, ⟨⟨hh.probe, hh.capacity⟩, by simp [Context.call], by simp [Context.call],
      .nil⟩, fun _ => trivial⟩
  | softmax current a loaded refused =>
    exact forwardRows_ends h hcap hh .softmax "softmax" true (fun _ => true) loaded refused
  | layerNorm current a loaded refused =>
    exact forwardRows_ends h hcap hh .layernorm "layernorm" a.epsOk (fun _ => true) loaded refused
  | addBias current a loaded refused =>
    exact forwardRows_ends h hcap hh .addBias "add bias" (a.bias ≠ 0) (·.addBias) loaded refused
  | gelu current a loaded refused =>
    exact forwardRows_ends h hcap hh .gelu "gelu" a.modeOk (·.gelu) loaded refused
  | attention current a r =>
    by_cases hargs : a.refused = false
    · have hcounts : Nonempty (Counts M current b a) := by
        by_cases hslots : b.slots = 0
        · exact ⟨.none hslots⟩
        · have hcounted := h hargs
          rw [if_neg hslots] at hcounted
          exact hcounted.counts hslots hargs
      obtain ⟨c⟩ := hcounts
      refine attention_ends (fun _ => c) hcap hh (fun _ hor g hg => .inl ?_) r
      have hslots : b.slots = 0 := by
        -- what is attached has slots
        refine hor.elim id fun hzero => ?_
        by_contra hslots
        unfold Buffer.Ok at hok
        rw [if_neg hslots] at hok
        omega
      have hclean := h hargs
      rw [if_pos hslots] at hclean
      exact hclean g hg
    · refine attention_ends (fun hno => absurd hno hargs) hcap hh (fun hno => absurd hno hargs) r

end Calls

/-! ## Runs -/

/-- A handle, and what is attached to it. -/
structure Session where
  attached : Buffer := {}
  ctx : Context := {}

/-- The session after a call. -/
def Session.step (M : Machine) (s : Session) (c : Call) : Session :=
  ⟨s.attached.after c, s.ctx.step M c⟩

/-- No call of the run comes to a defect. -/
def AllMind (M : Machine) (cs : List Call) : Prop :=
  Runs.Along (Session.step M) (fun s c => Minds M s.attached s.ctx c) {} cs

/-- On a new handle, every call of a run that does not come to a defect keeps the law of the probe. -/
theorem probe_law (M : Machine) (before : List Call) (c : Call) (h : AllMind M (before ++ [c])) :
    let s := Runs.after (Session.step M) {} before
    ProbeLaw (s.attached.after c) (s.ctx.call M c) := by
  intro s
  obtain ⟨hbefore, hc, -⟩ := (Runs.along_append _ _ _).mp h
  have hs : s.attached.Ok ∧ Holds s.attached s.ctx := by
    refine Runs.invariant (I := fun s => s.attached.Ok ∧ Holds s.attached s.ctx) ?_ hbefore
      ⟨rfl, rfl, rfl⟩
    rintro s c ⟨hok, hh⟩ hminds
    obtain ⟨_, -, -, hstage, -⟩ := call_ends hminds hok hh
    exact ⟨hok.after c, hstage.holds⟩
  exact (call_ends hc hs.1 hs.2).law

/-- Devices of one kind. -/
def oneKind : Machine where
  props := fun _ => .ok {}
  slotCount := fun _ => .ok 16

/-- Attention over one head of one row. -/
def oneHead : AttentionArgs where
  batch := 1
  heads := 1
  seqLen := 1
  headDim := 1
  q := 0x1000
  k := 0x2000
  v := 0x3000
  workspace := 0x4000
  workspaceBytes := 4
  out := 0x5000

/-- Its modules are there, and its launches are taken. -/
def answered : AttentionReplies where
  loaded := some { device := 0 }
  blas := { module := some { device := 0, shape := false } }

/-- Attach a probe, run an attention, and detach. -/
def attachedOnce : List Call :=
  [.setCycleProbe 0x8000 64, .attention 0 oneHead answered, .setCycleProbe 0 0]

theorem oneKind_blockFits : BlockFits oneKind 0 := by
  intro prop hprop
  obtain rfl := Except.ok.inj hprop
  decide

theorem probe_law_softmax_attention :
    let cs := [Call.setCycleProbe 0x8000 64,
      .softmax 0 { rows := 3, cols := 4, ldx := 4, ldy := 4, x := 0x1000, y := 0x2000 }
        (some { device := 0 }) none]
    let s := Runs.after (Session.step oneKind) {} cs
    ProbeLaw (s.attached.after (.attention 0 oneHead answered))
      (s.ctx.call oneKind (.attention 0 oneHead answered)) := by
  refine probe_law oneKind _ _ ⟨trivial, fun _ => ⟨oneKind_blockFits, ?_, fun _ => trivial⟩,
    fun _ => ⟨oneKind_blockFits, ?_, fun _ => ?_, ?_,
      fun _ => ⟨?_, fun _ => ⟨?_, fun _ => trivial⟩⟩⟩, trivial⟩
  all_goals decide +kernel

/-- The GEMMs of an attention after a detach are given the probe of the attention before it. -/
theorem probe_law_not :
    ¬ ∀ (M : Machine) (before : List Call) (c : Call),
      let s := Runs.after (Session.step M) {} before
      ProbeLaw (s.attached.after c) (s.ctx.call M c) := by
  intro h
  have hlaw := h oneKind attachedOnce (.attention 0 oneHead answered)
  have hstale : ∃ l ∈ ((Runs.after (Session.step oneKind) {} attachedOnce).ctx.call oneKind
      (.attention 0 oneHead answered)).launched, l.cycles = 0x8078 := by
    decide +kernel
  obtain ⟨l, hl, hcycles⟩ := hstale
  rcases hlaw.address l hl with hzero | ⟨hslots, -⟩
  · rw [hcycles] at hzero
    exact absurd hzero (by decide)
  · exact hslots rfl

end Grxcp.Dnn
