import Grxcp.Runtime.TensorMap
import Grxcp.Runtime.SlotHistory

/-!
# The reach of a tile

The copy engine reads a tile by the registers of its slot. It clips the rows of a tile at the array's and
does not clip a row, so a tile that begins at the last element reads a whole tile past it. The check of
`grxTensorMapProgramAsync` leaves room for the tile that begins at the first: what it accepts reads
outside the allocation, unless the allocation has that room besides (`tile_reach_iff`).
-/

namespace Grxcp.Runtime

/-! ## The engine -/

/-- A descriptor as the engine takes it from the registers of a slot. -/
structure EngineView where
  base : ℕ
  rank : ℕ
  elementBytes : ℕ
  size1 : ℕ
  stride0 : ℕ
  tile0 : ℕ
  tile1 : ℕ
deriving DecidableEq, Repr

def engineView (regs : SlotRegs) (slot : ℤ) : EngineView where
  base := (regs (slot, .baseLo)).toNat + 2 ^ 32 * (regs (slot, .baseHi)).toNat
  rank := (regs (slot, .metaWord)).toNat % 8
  elementBytes := 2 ^ ((regs (slot, .metaWord)).toNat / 8 % 4)
  size1 := (regs (slot, .size1)).toNat
  stride0 := (regs (slot, .stride0)).toNat
  tile0 := (regs (slot, .tilesize01)).toNat % 2 ^ 16
  tile1 := (regs (slot, .tilesize01)).toNat / 2 ^ 16

/-- The rows of a tile from `row` on: those of the array, or the one that an array of rank 1 is. -/
def EngineView.Rows (v : EngineView) (row r : ℕ) : Prop :=
  if v.rank = 1 then r = 0 else row ≤ r ∧ r < row + v.tile1 ∧ r < v.size1

/-- The addresses that the engine reads for the tile at an element and a row. Elements past the end of a
row are read as they lie. -/
def EngineView.reads (v : EngineView) (element row : ℕ) : Set ℕ :=
  {a | ∃ r e i, v.Rows row r ∧ element ≤ e ∧ e < element + v.tile0 ∧ i < v.elementBytes ∧
    a = v.base + r * v.stride0 + e * v.elementBytes + i}

/-! ## What is programmed -/

theorem toNat_pack2x16 (lo hi : UInt32) :
    (pack2x16 lo hi).toNat = hi.toNat % 2 ^ 16 * 2 ^ 16 + lo.toNat % 2 ^ 16 := by
  have hmask : (0xffff : UInt32).toNat = 2 ^ 16 - 1 := rfl
  unfold pack2x16
  rw [UInt32.toNat_or, UInt32.toNat_shiftLeft, UInt32.toNat_and, UInt32.toNat_and, hmask,
    Nat.and_two_pow_sub_one_eq_mod, Nat.and_two_pow_sub_one_eq_mod]
  show (hi.toNat % 2 ^ 16) <<< 16 % 2 ^ 32 ||| lo.toNat % 2 ^ 16 = _
  have hlt : hi.toNat % 2 ^ 16 < 2 ^ 16 := Nat.mod_lt _ (by norm_num)
  rw [Nat.shiftLeft_eq, Nat.mod_eq_of_lt (by omega), mul_comm]
  exact (Nat.two_pow_add_eq_or_of_lt (Nat.mod_lt _ (by norm_num)) _).symm

section Programmed

variable {d : GrxTensorMapDesc} {m : Mapping} {r : ProgramReplies} {regs regs' : SlotRegs}

/-- The checks of the call that read nothing but the descriptor and its allocation. -/
structure GrxTensorMapDesc.Checked (d : GrxTensorMapDesc) (m : Mapping) : Prop where
  base : d.base ≠ 0
  slot : 0 ≤ d.slot
  rank : d.rank = 1 ∨ d.rank = 2
  elementBytes : d.elementBytes = 1 ∨ d.elementBytes = 2 ∨ d.elementBytes = 4 ∨ d.elementBytes = 8
  extents : d.extents = none
  span : ∃ span, d.span = some span ∧ span ≤ m.size

/-- A call that is accepted has passed them, and its writes are in the registers. -/
theorem checked_of_accepted (hm : r.mapping = some m)
    (h : grxTensorMapProgramAsync regs (some d) r = (regs', .ok ())) :
    d.Checked m ∧ regs' = Writes.apply regs d.writes := by
  have hsucceeds : ProgramCall.Succeeds regs ⟨some d, r⟩ := by
    show (grxTensorMapProgramAsync regs (some d) r).2 = .ok ()
    rw [h]
  obtain ⟨d', hd', hstep⟩ := hsucceeds.step_eq
  cases hd'
  constructor
  swap
  · rw [← hstep]
    show regs' = (grxTensorMapProgramAsync regs (some d) r).1
    rw [h]
  unfold grxTensorMapProgramAsync at h
  split at h
  · cases h
  next ws hws =>
  unfold tensorMapWrites at hws
  dsimp only at hws
  rw [hm] at hws
  dsimp only at hws
  split at hws
  · cases hws
  next hbase =>
  split at hws
  · cases hws
  iterate 2
    split at hws
    · cases hws
  split at hws
  · cases hws
  next hslot =>
  split at hws
  · cases hws
  next hrank =>
  split at hws
  · cases hws
  next hrank' =>
  split at hws
  · cases hws
  next helement =>
  split at hws
  · cases hws
  next hextents =>
  split at hws
  · cases hws
  next span hspan =>
  split at hws
  · cases hws
  next hsize =>
  push Not at hslot hrank helement
  refine ⟨hbase, hslot.1, ?_, ?_, hextents, span, hspan, not_lt.mp hsize⟩
  · have hzero : d.rank.toNat ≠ 0 := fun hn => hrank.1 (UInt32.toNat_inj.mp hn)
    have hle : d.rank.toNat ≤ 2 := UInt32.le_iff_toNat_le.mp (UInt32.not_lt.mp hrank')
    rw [← UInt32.toNat_inj, ← UInt32.toNat_inj]
    show d.rank.toNat = 1 ∨ d.rank.toNat = 2
    omega
  · by_contra hnot
    push Not at hnot
    exact hnot.2.2.2 (helement hnot.1 hnot.2.1 hnot.2.2.1)

/-- The replies of layers that take the call. -/
def GrxTensorMapDesc.taken (d : GrxTensorMapDesc) (m : Mapping) : ProgramReplies where
  mapping := some m
  device := { descCount := d.slot + 1 }

theorem accepted_of_checked (regs : SlotRegs) (h : d.Checked m) :
    grxTensorMapProgramAsync regs (some d) (d.taken m) =
      (Writes.apply regs d.writes, .ok ()) := by
  obtain ⟨hbase, hslot, hrank, helement, hextents, span, hspan, hsize⟩ := h
  have hwrites : tensorMapWrites (some d) (d.taken m) = .ok d.writes := by
    unfold tensorMapWrites GrxTensorMapDesc.taken
    dsimp only
    rw [if_neg hbase, if_neg (by decide), if_neg (by simp), if_neg (by omega), if_neg ?_, if_neg ?_,
      if_neg ?_, hextents, hspan]
    · dsimp only
      rw [if_neg (by omega)]
    · rcases helement with h | h | h | h <;> simp [h]
    · rcases hrank with h | h <;> rw [h] <;> decide
    · rcases hrank with h | h <;> rw [h] <;> decide
  unfold grxTensorMapProgramAsync
  rw [hwrites]
  rfl

/-- The word that the rank and the element size are packed in. -/
theorem toNat_metaWord (h : d.Checked m) : d.metaWord.toNat % 8 = d.rank.toNat ∧
    2 ^ (d.metaWord.toNat / 8 % 4) = d.elementBytes.toNat := by
  unfold GrxTensorMapDesc.metaWord
  cases d.layout <;> rcases h.rank with hr | hr <;> rcases h.elementBytes with he | he | he | he <;>
    rw [hr, he] <;> exact ⟨by decide, by decide⟩

/-- The extents that pass. -/
theorem extents_none (h : d.Checked m) :
    0 < (d.size 0).toNat ∧ 0 < (d.tile 0).toNat ∧ (d.tile 0).toNat < 2 ^ 16 ∧
      (d.rank = 2 → 0 < (d.size 1).toNat ∧ 0 < (d.tile 1).toNat ∧ (d.tile 1).toNat < 2 ^ 16) := by
  have hextents := h.extents
  unfold GrxTensorMapDesc.extents at hextents
  split at hextents
  · cases hextents
  next hfirst =>
  split at hextents
  · cases hextents
  next hsecond =>
  have hpos : ∀ {v : UInt32}, v ≠ 0 → 0 < v.toNat :=
    fun hne => Nat.pos_of_ne_zero fun hn => hne (UInt32.toNat_inj.mp hn)
  have hlt : ∀ {v : UInt32}, ¬ 0xffff < v → v.toNat < 2 ^ 16 :=
    fun hnot => Nat.lt_succ_of_le (UInt32.le_iff_toNat_le.mp (UInt32.not_lt.mp hnot))
  push Not at hfirst hsecond
  refine ⟨hpos hfirst.1, hpos hfirst.2.1, hlt hfirst.2.2, fun hrank => ?_⟩
  obtain ⟨hsize, htile, hle⟩ := hsecond hrank
  exact ⟨hpos hsize, hpos htile, hlt hle⟩

/-- What the engine takes from the slot is the descriptor. -/
theorem engineView_programmed (h : d.Checked m) :
    engineView (Writes.apply regs d.writes) d.slot =
      { base := d.base % 2 ^ 64
        rank := d.rank.toNat
        elementBytes := d.elementBytes.toNat
        size1 := (engineView (Writes.apply regs d.writes) d.slot).size1
        stride0 := (engineView (Writes.apply regs d.writes) d.slot).stride0
        tile0 := (d.tile 0).toNat
        tile1 := if d.rank = 2 then (d.tile 1).toNat else 0 } := by
  obtain ⟨hrank, helement⟩ := toNat_metaWord h
  obtain ⟨-, -, htile0, htile1⟩ := extents_none h
  have hlast : Writes.last (d.slot, .baseLo) d.writes = some (UInt32.ofNat (d.base % 2 ^ 32)) ∧
      Writes.last (d.slot, .baseHi) d.writes = some (UInt32.ofNat (d.base / 2 ^ 32)) ∧
      Writes.last (d.slot, .metaWord) d.writes = some d.metaWord ∧
      Writes.last (d.slot, .tilesize01) d.writes =
        some (pack2x16 (d.tile 0) (if 2 ≤ d.rank then d.tile 1 else 0)) := by
    unfold GrxTensorMapDesc.writes
    split_ifs <;> simp [GrxTensorMapDesc.put, Writes.last]
  obtain ⟨hlo, hhi, hmeta, htile⟩ := hlast
  have htiles : (pack2x16 (d.tile 0) (if 2 ≤ d.rank then d.tile 1 else 0)).toNat =
      (if d.rank = 2 then (d.tile 1).toNat else 0) * 2 ^ 16 + (d.tile 0).toNat := by
    rw [toNat_pack2x16, Nat.mod_eq_of_lt htile0]
    rcases h.rank with hone | htwo
    · rw [if_neg (by rw [hone]; decide), if_neg (by rw [hone]; decide)]
      rfl
    · rw [if_pos (by rw [htwo]; decide), if_pos htwo, Nat.mod_eq_of_lt (htile1 htwo).2.2]
  unfold engineView
  rw [Writes.apply_of_last hlo, Writes.apply_of_last hhi, Writes.apply_of_last hmeta,
    Writes.apply_of_last htile, hrank, helement, htiles]
  congr 1
  · rw [UInt32.toNat_ofNat', UInt32.toNat_ofNat']
    omega
  · omega
  · omega

theorem engineView_rows (regs : SlotRegs) (hrank : d.rank = 2) :
    (engineView (Writes.apply regs d.writes) d.slot).size1 = (d.size 1).toNat ∧
      (engineView (Writes.apply regs d.writes) d.slot).stride0 = (d.strideBytes 0).toNat := by
  have hlast : Writes.last (d.slot, .size1) d.writes = some (d.size 1) ∧
      Writes.last (d.slot, .stride0) d.writes = some (d.strideBytes 0) := by
    have htwo : 2 ≤ d.rank := by
      rw [hrank]
      decide
    unfold GrxTensorMapDesc.writes
    split_ifs <;> simp_all [GrxTensorMapDesc.put, Writes.last]
  unfold engineView
  rw [Writes.apply_of_last hlast.1, Writes.apply_of_last hlast.2]
  exact ⟨rfl, rfl⟩

end Programmed

/-! ## The bounds -/

/-- A tile begins inside the array. -/
def GrxTensorMapDesc.Begins (d : GrxTensorMapDesc) (element row : ℕ) : Prop :=
  element < (d.size 0).toNat ∧ (d.rank = 2 → row < (d.size 1).toNat)

/-- Whatever the engine reads by a descriptor that is accepted, for a tile that begins inside the array,
is in the allocation, which has `m.size` bytes from the base on. -/
def TilesInside (d : GrxTensorMapDesc) (m : Mapping) : Prop :=
  ∀ (regs regs' : SlotRegs) (r : ProgramReplies), r.mapping = some m →
    grxTensorMapProgramAsync regs (some d) r = (regs', .ok ()) →
    ∀ element row, d.Begins element row → ∀ a ∈ (engineView regs' d.slot).reads element row,
      d.base % 2 ^ 64 ≤ a ∧ a < d.base % 2 ^ 64 + m.size

/-- How far the engine reads for the tile at the last element of the last row. -/
def GrxTensorMapDesc.reach (d : GrxTensorMapDesc) : ℕ :=
  (if d.rank = 2 then ((d.size 1).toNat - 1) * (d.strideBytes 0).toNat else 0) +
    ((d.size 0).toNat - 1 + (d.tile 0).toNat) * d.elementBytes.toNat

section Reach

variable {d : GrxTensorMapDesc} {m : Mapping} {regs : SlotRegs} {element row a : ℕ}

/-- Every tile that begins inside is read within that reach. -/
theorem reads_lt_reach (h : d.Checked m) (hbegins : d.Begins element row)
    (ha : a ∈ (engineView (Writes.apply regs d.writes) d.slot).reads element row) :
    d.base % 2 ^ 64 ≤ a ∧ a < d.base % 2 ^ 64 + d.reach := by
  obtain ⟨r, e, i, hrow, hle, hlt, hi, rfl⟩ := ha
  obtain ⟨helement, hrows⟩ := hbegins
  rw [engineView_programmed h] at hrow hlt hi ⊢
  dsimp only at hlt hi ⊢
  have hwhole : e * d.elementBytes.toNat + i <
      ((d.size 0).toNat - 1 + (d.tile 0).toNat) * d.elementBytes.toNat := by
    have hmul : (e + 1) * d.elementBytes.toNat ≤
        ((d.size 0).toNat - 1 + (d.tile 0).toNat) * d.elementBytes.toNat :=
      Nat.mul_le_mul_right _ (by omega)
    rw [Nat.add_mul, one_mul] at hmul
    omega
  have hskip : r * (engineView (Writes.apply regs d.writes) d.slot).stride0 ≤
      if d.rank = 2 then ((d.size 1).toNat - 1) * (d.strideBytes 0).toNat else 0 := by
    unfold EngineView.Rows at hrow
    dsimp only at hrow
    rcases h.rank with hone | htwo
    · rw [if_pos (by rw [hone]; rfl)] at hrow
      rw [hrow, zero_mul]
      exact Nat.zero_le _
    · obtain ⟨hsize, hstride⟩ := engineView_rows regs htwo
      rw [if_neg (by rw [htwo]; decide), hsize] at hrow
      rw [if_pos htwo, hstride]
      exact Nat.mul_le_mul_right _ (by omega)
  unfold GrxTensorMapDesc.reach
  omega

/-- The reach is that of a tile. -/
theorem exists_reads_reach (regs : SlotRegs) (h : d.Checked m) : ∃ element row, d.Begins element row ∧
    d.base % 2 ^ 64 + (d.reach - 1) ∈
      (engineView (Writes.apply regs d.writes) d.slot).reads element row := by
  obtain ⟨hsize0, htile0, -, hrank⟩ := extents_none h
  have hbytes : 0 < d.elementBytes.toNat := by
    rcases h.elementBytes with he | he | he | he <;> rw [he] <;> decide
  refine ⟨(d.size 0).toNat - 1, (d.size 1).toNat - 1, ⟨by omega, fun htwo => ?_⟩,
    if d.rank = 2 then (d.size 1).toNat - 1 else 0, (d.size 0).toNat - 1 + ((d.tile 0).toNat - 1),
    d.elementBytes.toNat - 1, ?_, ?_, ?_, ?_, ?_⟩
  · have hpos := (hrank htwo).1
    omega
  · rw [engineView_programmed h]
    unfold EngineView.Rows
    dsimp only
    rcases h.rank with hone | htwo
    · rw [if_pos (by rw [hone]; rfl), if_neg (by rw [hone]; decide)]
    · obtain ⟨hpos, htile, -⟩ := hrank htwo
      obtain ⟨hsize, -⟩ := engineView_rows regs htwo
      rw [if_neg (by rw [htwo]; decide), if_pos htwo, if_pos htwo, hsize]
      omega
  · omega
  · rw [engineView_programmed h]
    dsimp only
    omega
  · rw [engineView_programmed h]
    dsimp only
    omega
  · have hskip : (if d.rank = 2 then (d.size 1).toNat - 1 else 0) *
        (engineView (Writes.apply regs d.writes) d.slot).stride0 =
          if d.rank = 2 then ((d.size 1).toNat - 1) * (d.strideBytes 0).toNat else 0 := by
      split
      next htwo => rw [(engineView_rows regs htwo).2]
      next => exact zero_mul _
    rw [engineView_programmed h]
    dsimp only
    rw [hskip]
    have hmul : ((d.size 0).toNat - 1 + (d.tile 0).toNat) * d.elementBytes.toNat =
        ((d.size 0).toNat - 1 + ((d.tile 0).toNat - 1)) * d.elementBytes.toNat +
          d.elementBytes.toNat := by
      rw [← Nat.succ_mul]
      congr 1
      omega
    unfold GrxTensorMapDesc.reach
    omega

/-- Tiles are read inside the allocation if and only if a check refuses the descriptor in any case, or
the allocation has room for the tile at the last element. -/
theorem tile_reach_iff (d : GrxTensorMapDesc) (m : Mapping) :
    TilesInside d m ↔ ¬ d.Checked m ∨ d.reach ≤ m.size := by
  constructor
  · intro h
    by_cases hchecked : d.Checked m
    · right
      have haccepted := accepted_of_checked (fun _ => 0) hchecked
      obtain ⟨element, row, hbegins, hreads⟩ := exists_reads_reach (fun _ => 0) hchecked
      have hlt := (h _ _ _ rfl haccepted element row hbegins _ hreads).2
      omega
    · exact .inl hchecked
  · intro h regs regs' r hm haccepted element row hbegins a ha
    obtain ⟨hchecked, rfl⟩ := checked_of_accepted hm haccepted
    have hreach := h.resolve_left (not_not.mpr hchecked)
    obtain ⟨hge, hlt⟩ := reads_lt_reach hchecked hbegins ha
    exact ⟨hge, by omega⟩

end Reach

/-- Tiles of three by three words, over four rows of four. -/
def overhangDesc : GrxTensorMapDesc where
  base := 4096
  rank := 2
  size _ := 4
  strideBytes _ := 16
  tile _ := 3
  elementBytes := 4

/-- The last tile reads its row to the sixth word, and the rows are all that was allocated. -/
theorem tile_reach_not : ¬ ∀ (d : GrxTensorMapDesc) (m : Mapping), TilesInside d m := by
  intro h
  have hchecked : overhangDesc.Checked { size := 64 } :=
    ⟨by decide, by decide, by decide, by decide, by decide, 64, by decide, by decide⟩
  obtain ⟨element, row, hbegins, hreads⟩ := exists_reads_reach (fun _ => 0) hchecked
  have hlt := (h _ _ _ _ _ rfl (accepted_of_checked _ hchecked) element row hbegins _ hreads).2
  exact absurd hlt (by decide)

end Grxcp.Runtime
