import Grxcp.Lib.Tiles
import Grxcp.Lib.Words
import Grxcp.Runtime.Texture

/-!
# Texels

What an array, a copy into it and a fetch from it are for: texels that lie apart inside one allocation, a
copy that writes the texels of its window, and a fetch that reads the texel that the address mode names.
The code keeps this where no product or sum of sizes passes its word, and nowhere else
(`texture_law_iff`).
-/

namespace Grxcp.Runtime

open Words

/-! ## The law -/

/-- The bytes of a texel. -/
def ArrayImpl.texel (a : ArrayImpl) : ℕ :=
  (texelBytes a.format).toNat

/-- The bytes that `grxMalloc` was asked for. -/
def ArrayImpl.bytes (a : ArrayImpl) : ℕ :=
  (a.pitch * a.height).toNat

/-- Where a texel starts. -/
def ArrayImpl.offset (a : ArrayImpl) (x y : ℕ) : ℕ :=
  y * a.pitch.toNat + x * a.texel

/-- The texels are in the allocation, and apart. -/
structure ArrayImpl.Sound (a : ArrayImpl) : Prop where
  inside : ∀ x < a.width.toNat, ∀ y < a.height.toNat, a.offset x y + a.texel ≤ a.bytes
  apart : ∀ x < a.width.toNat, ∀ y < a.height.toNat, ∀ x' < a.width.toNat, ∀ y' < a.height.toNat,
    (x, y) ≠ (x', y') →
      a.offset x y + a.texel ≤ a.offset x' y' ∨ a.offset x' y' + a.texel ≤ a.offset x y

/-- The copy of a row writes this byte. -/
def RowCopy.Writes (c : RowCopy) (p : ℕ) : Prop :=
  c.dst.toNat ≤ p ∧ p < c.dst.toNat + c.count.toNat

/-- This byte is of a texel of the window. -/
def Window.Has (q : Window) (a : ArrayImpl) (p : ℕ) : Prop :=
  ∃ row < q.height.toNat, ∃ col < q.width.toNat,
    a.data.toNat + a.offset (q.xOffset.toNat + col) (q.yOffset.toNat + row) ≤ p ∧
      p < a.data.toNat + a.offset (q.xOffset.toNat + col) (q.yOffset.toNat + row) + a.texel

/-- The texel that an address mode names on a side of `n` texels; none is the border. -/
def coordinate (mode : UInt32) (i : ℤ) (n : ℕ) : Option ℕ :=
  if mode = GRX_TEX_ADDRESS_WRAP then some (i % n).toNat
  else if mode = GRX_TEX_ADDRESS_MIRROR then
    some (if i % (2 * n) < n then i % (2 * n) else 2 * n - 1 - i % (2 * n)).toNat
  else if mode = GRX_TEX_ADDRESS_BORDER then if 0 ≤ i ∧ i < n then some i.toNat else none
  else some (max 0 (min i (n - 1))).toNat

/-- The address of the texel that a pair of coordinates names. -/
def ArrayImpl.named (a : ArrayImpl) (desc : SamplerDesc) (i j : ℤ) : Option ℕ :=
  match coordinate desc.addressX i a.width.toNat, coordinate desc.addressY j a.height.toNat with
  | some x, some y => some (a.data.toNat + a.offset x y)
  | _, _ => none

def Fetched.address : Fetched → Option ℕ
  | texel p => some p.toNat
  | border => none

/-- The law of an array, of a copy into it and of the textures made from it. -/
structure TextureLaw (a : ArrayImpl) (q : Window) (copied : List RowCopy) : Prop where
  sound : a.Sound
  copies : ∀ p, (∃ c ∈ copied, c.Writes p) ↔ q.Has a p
  fetches : ∀ desc stored d, grxCreateTextureObject a desc stored = .ok d →
    ∀ i j : Int32, (d.fetchFormat i j).address = a.named desc i.toInt j.toInt

/-- The pitch of a row, without overflow. -/
def exactPitch (cacheLineSize : Int32) (width : ℕ) (texel : ℕ) : ℕ :=
  (rowAlign cacheLineSize).toNat * Tiles.blocks (width * texel) (rowAlign cacheLineSize).toNat

/-- The sizes of an array, and the corner of a window, are in their words: in `size_t` on the host, and on
the device the last column and the last row in `unsigned`. -/
structure TextureFits (cacheLineSize : Int32) (a : ArrayImpl) (q : Window) : Prop where
  row : a.width.toNat * a.texel + (rowAlign cacheLineSize).toNat - 1 < 2 ^ 64
  size : exactPitch cacheLineSize a.width.toNat a.texel * a.height.toNat < 2 ^ 64
  window : q.xOffset.toNat + q.width.toNat < 2 ^ 64 ∧ q.yOffset.toNat + q.height.toNat < 2 ^ 64 ∨
    q.width = 0 ∨ q.height = 0
  lastColumn : (a.width.toNat - 1) * a.texel < 2 ^ 32
  lastRow : (a.height.toNat - 1) * exactPitch cacheLineSize a.width.toNat a.texel < 2 ^ 32

/-! ## Arrays -/

/-- What an array is that `grxMallocArray` returned. -/
structure ArrayImpl.Made (cacheLineSize : Int32) (a : ArrayImpl) : Prop where
  width : 0 < a.width.toNat
  height : 0 < a.height.toNat
  texel : a.texel = 4 ∨ a.texel = 16
  pitch : a.pitch = rowPitch cacheLineSize a.width a.format

section Arrays

variable {cacheLineSize : Int32} {a : ArrayImpl}

theorem rowAlign_pos (cacheLineSize : Int32) : 0 < (rowAlign cacheLineSize).toNat := by
  unfold rowAlign
  split
  next h =>
    have hpos : 0 < cacheLineSize.toInt := Int32.lt_iff_toInt_lt.mp h
    rw [toUInt64_toNat hpos.le]
    omega
  · decide

theorem rowAlign_lt (cacheLineSize : Int32) : (rowAlign cacheLineSize).toNat < 2 ^ 31 := by
  unfold rowAlign
  split
  next h =>
    have hpos : 0 < cacheLineSize.toInt := Int32.lt_iff_toInt_lt.mp h
    have hlt := cacheLineSize.toInt_lt
    rw [toUInt64_toNat hpos.le]
    omega
  · decide

theorem made_of_malloc {acquire : Option GrxError} {malloc : UInt64 → Except GrxError UInt64} {out : Bool}
    {format : UInt32} {width height : UInt64}
    (h : grxMallocArray cacheLineSize acquire malloc out format width height = .ok a) :
    a.Made cacheLineSize := by
  unfold grxMallocArray at h
  split_ifs at h with hargs hformat
  rw [not_or, not_or] at hargs
  have hpos : ∀ {x : UInt64}, x ≠ 0 → 0 < x.toNat := fun hne =>
    Nat.pos_of_ne_zero fun hzero => hne (UInt64.toNat_inj.mp hzero)
  cases acquire with
  | some e => cases h
  | none =>
    dsimp only at h
    cases hdata : malloc (rowPitch cacheLineSize width format * height) with
    | error e =>
      rw [hdata] at h
      cases h
    | ok data =>
      rw [hdata] at h
      cases h
      refine ⟨hpos hargs.2.1, hpos hargs.2.2, ?_, rfl⟩
      show (texelBytes format).toNat = 4 ∨ (texelBytes format).toNat = 16
      unfold texelBytes at hformat ⊢
      split_ifs at hformat ⊢
      · exact .inl rfl
      · exact .inr rfl
      · exact absurd rfl hformat

/-- The pitch as the code computes it: the bytes of a row with an alignment to spare, modulo `2 ^ 64`. -/
theorem pitch_eq (hmade : a.Made cacheLineSize) :
    a.pitch.toNat = (a.width.toNat * a.texel + (rowAlign cacheLineSize).toNat + (2 ^ 64 - 1)) % 2 ^ 64 /
      (rowAlign cacheLineSize).toNat * (rowAlign cacheLineSize).toNat := by
  have hone : (1 : UInt64).toNat = 1 := rfl
  have hsum : (2 ^ 64 - 1 + (a.width.toNat * a.texel % 2 ^ 64 + (rowAlign cacheLineSize).toNat) % 2 ^ 64) % 2 ^ 64 =
      (a.width.toNat * a.texel + (rowAlign cacheLineSize).toNat + (2 ^ 64 - 1)) % 2 ^ 64 := by
    omega
  have hle : (a.width.toNat * a.texel + (rowAlign cacheLineSize).toNat + (2 ^ 64 - 1)) % 2 ^ 64 /
      (rowAlign cacheLineSize).toNat * (rowAlign cacheLineSize).toNat < 2 ^ 64 :=
    lt_of_le_of_lt (Nat.div_mul_le_self _ _) (Nat.mod_lt _ (by decide))
  rw [hmade.pitch]
  unfold rowPitch
  unfold ArrayImpl.texel at hsum hle ⊢
  rw [UInt64.toNat_mul, UInt64.toNat_div, UInt64.toNat_sub, UInt64.toNat_add, UInt64.toNat_mul, hone, hsum]
  exact Nat.mod_eq_of_lt hle

/-- The pitch is the exact one, if the bytes of a row with an alignment to spare do not wrap. -/
theorem pitch_exact (hmade : a.Made cacheLineSize)
    (hrow : a.width.toNat * a.texel + (rowAlign cacheLineSize).toNat - 1 < 2 ^ 64) :
    a.pitch.toNat = exactPitch cacheLineSize a.width.toNat a.texel := by
  have hpos := rowAlign_pos cacheLineSize
  have hsum : (a.width.toNat * a.texel + (rowAlign cacheLineSize).toNat + (2 ^ 64 - 1)) % 2 ^ 64 =
      a.width.toNat * a.texel + (rowAlign cacheLineSize).toNat - 1 := by
    omega
  rw [pitch_eq hmade, hsum, Nat.mul_comm]
  rfl

/-- The bytes of a row and the bytes of an array, with the sizes in their words. -/
structure ArrayImpl.Exact (a : ArrayImpl) : Prop where
  row : a.width.toNat * a.texel ≤ a.pitch.toNat
  bytes : a.bytes = a.pitch.toNat * a.height.toNat

theorem exact_of_fits (hmade : a.Made cacheLineSize)
    (hrow : a.width.toNat * a.texel + (rowAlign cacheLineSize).toNat - 1 < 2 ^ 64)
    (hsize : exactPitch cacheLineSize a.width.toNat a.texel * a.height.toNat < 2 ^ 64) : a.Exact := by
  have hpitch := pitch_exact hmade hrow
  constructor
  · rw [hpitch]
    exact Tiles.le_blocks_mul (rowAlign_pos cacheLineSize)
  · unfold ArrayImpl.bytes
    rw [UInt64.toNat_mul, Nat.mod_eq_of_lt (by rwa [hpitch])]

/-- Texels in rows that do not overlap. -/
theorem sound_of_exact (hexact : a.Exact) : a.Sound := by
  have hrow : ∀ {x : ℕ}, x < a.width.toNat → x * a.texel + a.texel ≤ a.pitch.toNat := by
    intro x hx
    calc x * a.texel + a.texel = (x + 1) * a.texel := (Nat.succ_mul x a.texel).symm
      _ ≤ a.width.toNat * a.texel := Nat.mul_le_mul_right _ hx
      _ ≤ a.pitch.toNat := hexact.row
  have hline : ∀ {y y' : ℕ}, y < y' → y * a.pitch.toNat + a.pitch.toNat ≤ y' * a.pitch.toNat := by
    intro y y' hlt
    rw [← Nat.succ_mul]
    exact Nat.mul_le_mul_right _ hlt
  have hbytes : a.bytes = a.height.toNat * a.pitch.toNat := by rw [hexact.bytes, Nat.mul_comm]
  constructor
  · intro x hx y hy
    have hend := hrow hx
    have hnext := hline hy
    unfold ArrayImpl.offset
    omega
  · intro x hx y hy x' hx' y' hy' hne
    have hend := hrow hx
    have hend' := hrow hx'
    unfold ArrayImpl.offset
    rcases Nat.lt_trichotomy y y' with hlt | rfl | hlt
    · have hnext := hline hlt
      omega
    · rcases Nat.lt_trichotomy x x' with hlt | rfl | hlt
      · have hnext : (x + 1) * a.texel ≤ x' * a.texel := Nat.mul_le_mul_right _ hlt
        rw [Nat.succ_mul] at hnext
        omega
      · exact absurd rfl hne
      · have hnext : (x' + 1) * a.texel ≤ x * a.texel := Nat.mul_le_mul_right _ hlt
        rw [Nat.succ_mul] at hnext
        omega
    · have hnext := hline hlt
      omega

/-- Texels that are all in an allocation have their sizes in `size_t`. -/
theorem fits_of_sound (hmade : a.Made cacheLineSize) (hsound : a.Sound) :
    a.width.toNat * a.texel + (rowAlign cacheLineSize).toNat - 1 < 2 ^ 64 ∧
      exactPitch cacheLineSize a.width.toNat a.texel * a.height.toNat < 2 ^ 64 := by
  have hbytes : a.bytes < 2 ^ 64 := (a.pitch * a.height).toNat_lt
  have halign := rowAlign_lt cacheLineSize
  have hwidth := hmade.width
  have hheight := hmade.height
  -- the last texel of the first row
  have hfirst := hsound.inside (a.width.toNat - 1) (by omega) 0 hheight
  have hlastRow : a.offset (a.width.toNat - 1) 0 + a.texel = a.width.toNat * a.texel := by
    unfold ArrayImpl.offset
    rw [Nat.zero_mul, Nat.zero_add, ← Nat.succ_mul]
    congr 1
    omega
  rw [hlastRow] at hfirst
  have htexel : 0 < a.width.toNat * a.texel :=
    Nat.mul_pos hwidth (by rcases hmade.texel with h | h <;> omega)
  have hrow : a.width.toNat * a.texel + (rowAlign cacheLineSize).toNat - 1 < 2 ^ 64 := by
    by_contra hwrap
    -- the pitch is zero, and so is the allocation
    have hsum : (a.width.toNat * a.texel + (rowAlign cacheLineSize).toNat + (2 ^ 64 - 1)) % 2 ^ 64 <
        (rowAlign cacheLineSize).toNat := by
      omega
    have hpitch := pitch_eq hmade
    rw [Nat.div_eq_of_lt hsum, Nat.zero_mul] at hpitch
    have hzero : a.bytes = 0 := by
      unfold ArrayImpl.bytes
      rw [UInt64.toNat_mul, hpitch, Nat.zero_mul, Nat.zero_mod]
    omega
  refine ⟨hrow, ?_⟩
  -- the last texel of the last row
  have hlast := hsound.inside (a.width.toNat - 1) (by omega) (a.height.toNat - 1) (by omega)
  have hpitch := pitch_exact hmade hrow
  rw [← hpitch]
  by_contra hwrap
  have hmod : a.bytes = a.pitch.toNat * a.height.toNat % 2 ^ 64 := by
    unfold ArrayImpl.bytes
    rw [UInt64.toNat_mul]
  have hsplit : a.pitch.toNat * a.height.toNat = (a.height.toNat - 1) * a.pitch.toNat + a.pitch.toNat := by
    rw [← Nat.succ_mul, Nat.mul_comm]
    congr 1
    omega
  have hend : a.offset (a.width.toNat - 1) (a.height.toNat - 1) + a.texel =
      (a.height.toNat - 1) * a.pitch.toNat + a.width.toNat * a.texel := by
    rw [← hlastRow]
    unfold ArrayImpl.offset
    omega
  have hlt := a.pitch.toNat_lt
  omega

end Arrays

/-! ## Copies -/

section Copies

variable {a : ArrayImpl} {q : Window} {replies : ℕ → Option GrxError} {copied : List RowCopy}

theorem copyRows_eq {n row : ℕ} (h : (q.copyRows a replies n row).2 = none) :
    (q.copyRows a replies n row).1 = (List.range n).map fun i => q.row a (row + i) := by
  induction n generalizing row with
  | zero => rfl
  | succ n ih =>
    unfold Window.copyRows at h ⊢
    cases hreply : replies row with
    | some e =>
      rw [hreply] at h
      cases h
    | none =>
      rw [hreply] at h
      show q.row a row :: (q.copyRows a replies n (row + 1)).1 = _
      rw [ih h, List.range_succ_eq_map, List.map_cons, List.map_map]
      congr 1
      apply List.map_congr_left
      intro i _
      show q.row a (row + 1 + i) = q.row a (row + (i + 1))
      congr 1
      omega

/-- A copy that succeeds passed the check of its corner, and has made the copy of each row. -/
theorem copied_eq (h : grxMemcpy2DToArray a q replies = (copied, none)) :
    (q.xOffset + q.width).toNat ≤ a.width.toNat ∧ (q.yOffset + q.height).toNat ≤ a.height.toNat ∧
      copied = (List.range q.height.toNat).map (q.row a) := by
  unfold grxMemcpy2DToArray at h
  split_ifs at h with _ hcorner
  · cases h
  · cases h
  · rw [not_or, UInt64.not_lt, UInt64.not_lt] at hcorner
    have hrows := copyRows_eq (congrArg Prod.snd h)
    rw [h] at hrows
    simp only [Nat.zero_add] at hrows
    exact ⟨UInt64.le_iff_toNat_le.mp hcorner.1, UInt64.le_iff_toNat_le.mp hcorner.2, hrows⟩

/-- A byte of a row of texels is a byte of one of them. -/
theorem row_bytes {start count texel p : ℕ} (htexel : 0 < texel) :
    (start ≤ p ∧ p < start + count * texel) ↔
      ∃ col < count, start + col * texel ≤ p ∧ p < start + col * texel + texel := by
  constructor
  · rintro ⟨hle, hlt⟩
    have hdiv := Nat.div_add_mod' (p - start) texel
    have hmod := Nat.mod_lt (p - start) htexel
    refine ⟨(p - start) / texel, Nat.div_lt_of_lt_mul ?_, by omega, by omega⟩
    rw [Nat.mul_comm]
    omega
  · rintro ⟨col, hcol, hle, hlt⟩
    have hmul : (col + 1) * texel ≤ count * texel := Nat.mul_le_mul_right _ hcol
    rw [Nat.succ_mul] at hmul
    omega

/-- The copy of a row, where the corner of the window does not wrap. -/
theorem row_toNat (hexact : a.Exact) (hroom : a.data.toNat + a.bytes ≤ 2 ^ 64)
    (hx : q.xOffset.toNat + q.width.toNat ≤ a.width.toNat) (hy : q.yOffset.toNat + q.height.toNat ≤ a.height.toNat)
    (hwidth : 0 < q.width.toNat) (htexel : 0 < a.texel) {row : ℕ} (hrow : row < q.height.toNat) :
    (q.row a row).dst.toNat = a.data.toNat + a.offset q.xOffset.toNat (q.yOffset.toNat + row) ∧
      (q.row a row).count.toNat = q.width.toNat * a.texel := by
  have hbytes := hexact.bytes
  have hline : (q.yOffset.toNat + row) * a.pitch.toNat + a.pitch.toNat ≤ a.bytes := by
    rw [hbytes, ← Nat.succ_mul, Nat.mul_comm a.pitch.toNat]
    exact Nat.mul_le_mul_right _ (by omega)
  have hcols : q.xOffset.toNat * a.texel + q.width.toNat * a.texel ≤ a.pitch.toNat := by
    rw [← Nat.add_mul]
    exact (Nat.mul_le_mul_right _ hx).trans hexact.row
  have hsome : 0 < q.width.toNat * a.texel := Nat.mul_pos hwidth htexel
  have hrowNat : (UInt64.ofNat row).toNat = row := UInt64.toNat_ofNat_of_lt' (hrow.trans q.height.toNat_lt)
  have hsum : (q.yOffset + UInt64.ofNat row).toNat = q.yOffset.toNat + row := by
    have hlt := a.height.toNat_lt
    rw [UInt64.toNat_add, hrowNat]
    exact Nat.mod_eq_of_lt (by omega)
  constructor
  · unfold Window.row ArrayImpl.offset
    unfold ArrayImpl.texel at hcols hsome ⊢
    dsimp only
    have hend : a.data.toNat + ((q.yOffset.toNat + row) * a.pitch.toNat +
        q.xOffset.toNat * (texelBytes a.format).toNat) < 2 ^ 64 := by
      omega
    rw [UInt64.toNat_add, UInt64.toNat_add, UInt64.toNat_mul, UInt64.toNat_mul, hsum]
    omega
  · have hpitch := a.pitch.toNat_lt
    unfold Window.row
    unfold ArrayImpl.texel at hcols ⊢
    dsimp only
    rw [UInt64.toNat_mul]
    exact Nat.mod_eq_of_lt (by omega)

/-- A copy whose corner does not wrap, or that is of nothing, writes the texels of its window. -/
theorem copies_of_window (hexact : a.Exact) (hroom : a.data.toNat + a.bytes ≤ 2 ^ 64) (htexel : 0 < a.texel)
    (h : grxMemcpy2DToArray a q replies = (copied, none))
    (hwindow : q.xOffset.toNat + q.width.toNat < 2 ^ 64 ∧ q.yOffset.toNat + q.height.toNat < 2 ^ 64 ∨
      q.width = 0 ∨ q.height = 0) (p : ℕ) : (∃ c ∈ copied, c.Writes p) ↔ q.Has a p := by
  obtain ⟨hcornerX, hcornerY, rfl⟩ := copied_eq h
  rcases Nat.eq_zero_or_pos q.width.toNat with hzero | hwidth
  · -- no columns
    constructor
    · rintro ⟨c, hc, hle, hlt⟩
      obtain ⟨row, -, rfl⟩ := List.mem_map.mp hc
      have hcount : (q.row a row).count.toNat = 0 := by
        unfold Window.row
        dsimp only
        rw [UInt64.toNat_mul, hzero, Nat.zero_mul, Nat.zero_mod]
      omega
    · rintro ⟨row, -, col, hcol, -⟩
      omega
  rcases Nat.eq_zero_or_pos q.height.toNat with hzero | hheight
  · -- no rows
    rw [hzero]
    constructor
    · rintro ⟨c, hc, -⟩
      exact absurd hc List.not_mem_nil
    · rintro ⟨row, hrow, -⟩
      omega
  obtain ⟨hx, hy⟩ : q.xOffset.toNat + q.width.toNat < 2 ^ 64 ∧ q.yOffset.toNat + q.height.toNat < 2 ^ 64 := by
    rcases hwindow with hw | hw | hw
    · exact hw
    · rw [hw] at hwidth
      exact absurd hwidth (by decide)
    · rw [hw] at hheight
      exact absurd hheight (by decide)
  rw [UInt64.toNat_add, Nat.mod_eq_of_lt hx] at hcornerX
  rw [UInt64.toNat_add, Nat.mod_eq_of_lt hy] at hcornerY
  have hstart : ∀ row col : ℕ, a.data.toNat + a.offset (q.xOffset.toNat + col) (q.yOffset.toNat + row) =
      a.data.toNat + a.offset q.xOffset.toNat (q.yOffset.toNat + row) + col * a.texel := by
    intro row col
    unfold ArrayImpl.offset
    rw [Nat.add_mul q.xOffset.toNat]
    omega
  have hwrites : ∀ row < q.height.toNat, ((q.row a row).Writes p ↔ ∃ col < q.width.toNat,
      a.data.toNat + a.offset (q.xOffset.toNat + col) (q.yOffset.toNat + row) ≤ p ∧
        p < a.data.toNat + a.offset (q.xOffset.toNat + col) (q.yOffset.toNat + row) + a.texel) := by
    intro row hrow
    obtain ⟨hdst, hcount⟩ := row_toNat hexact hroom hcornerX hcornerY hwidth htexel hrow
    unfold RowCopy.Writes
    rw [hdst, hcount, row_bytes htexel]
    simp only [hstart]
  constructor
  · rintro ⟨c, hc, hc'⟩
    obtain ⟨row, hrow, rfl⟩ := List.mem_map.mp hc
    rw [List.mem_range] at hrow
    exact ⟨row, hrow, (hwrites row hrow).mp hc'⟩
  · rintro ⟨row, hrow, hcol⟩
    exact ⟨_, List.mem_map.mpr ⟨row, List.mem_range.mpr hrow, rfl⟩, (hwrites row hrow).mpr hcol⟩

/-- The window of a copy that writes its texels has a corner that does not wrap: past that, its last texel
would be past every address. -/
theorem window_of_copies (hexact : a.Exact) (hmadeWidth : 0 < a.width.toNat) (htexel : 4 ≤ a.texel)
    (h : grxMemcpy2DToArray a q replies = (copied, none))
    (hcopies : ∀ p, (∃ c ∈ copied, c.Writes p) ↔ q.Has a p) :
    q.xOffset.toNat + q.width.toNat < 2 ^ 64 ∧ q.yOffset.toNat + q.height.toNat < 2 ^ 64 ∨
      q.width = 0 ∨ q.height = 0 := by
  by_contra hnot
  rw [not_or, not_or] at hnot
  obtain ⟨hwrap, hw, hh⟩ := hnot
  have hpos : ∀ {x : UInt64}, x ≠ 0 → 0 < x.toNat := fun hne =>
    Nat.pos_of_ne_zero fun hzero => hne (UInt64.toNat_inj.mp hzero)
  have hwidth := hpos hw
  have hheight := hpos hh
  have hpitch : 4 ≤ a.pitch.toNat := by
    calc 4 ≤ a.texel := htexel
      _ ≤ a.width.toNat * a.texel := Nat.le_mul_of_pos_left _ hmadeWidth
      _ ≤ a.pitch.toNat := hexact.row
  -- the first byte of the last texel
  have hlast : q.Has a (a.data.toNat +
      a.offset (q.xOffset.toNat + (q.width.toNat - 1)) (q.yOffset.toNat + (q.height.toNat - 1))) :=
    ⟨q.height.toNat - 1, by omega, q.width.toNat - 1, by omega, le_rfl, by omega⟩
  obtain ⟨c, -, -, hlt⟩ := (hcopies _).mpr hlast
  have hdst := c.dst.toNat_lt
  have hcount := c.count.toNat_lt
  have hcols : (q.xOffset.toNat + (q.width.toNat - 1)) * 4 ≤
      (q.xOffset.toNat + (q.width.toNat - 1)) * a.texel := Nat.mul_le_mul_left _ htexel
  have hrows : (q.yOffset.toNat + (q.height.toNat - 1)) * 4 ≤
      (q.yOffset.toNat + (q.height.toNat - 1)) * a.pitch.toNat := Nat.mul_le_mul_left _ hpitch
  unfold ArrayImpl.offset at hlt
  omega

end Copies

/-! ## Coordinates -/

section Coordinates

/-- The remainder that is not negative, of the one that truncates. -/
theorem emod_of_tmod {i n : ℤ} (hn : 0 < n) :
    i % n = if Int.tmod i n < 0 then Int.tmod i n + n else Int.tmod i n := by
  have hlow : -n < Int.tmod i n := Int.lt_tmod_of_pos i hn
  have hhigh : Int.tmod i n < n := Int.tmod_lt_of_pos i hn
  have hsame : i % n = Int.tmod i n % n := by
    conv_lhs => rw [← Int.tmod_add_mul_tdiv i n, Int.add_mul_emod_self_left]
  rw [hsame]
  split
  next hneg => rw [← Int.add_emod_right, Int.emod_eq_of_lt (by omega) (by omega)]
  next hpos => exact Int.emod_eq_of_lt (by omega) hhigh

/-- `2 * n`, which wraps for a side of `2 ^ 30`, still gives the right remainder, and is right modulo
`2 ^ 32`. -/
theorem period_toInt {n : Int32} (hpos : 0 < n.toInt) (hle : n.toInt ≤ 2 ^ 30) (i : Int32) :
    (i % (2 * n)).toInt = Int.tmod i.toInt (2 * n.toInt) ∧
      ((2 * n).toInt = 2 * n.toInt ∨ (2 * n).toInt = 2 * n.toInt - 2 ^ 32) := by
  have htwo : (2 : Int32).toInt = 2 := rfl
  have hperiod : (2 * n).toInt = Int.bmod (2 * n.toInt) (2 ^ 32) := by rw [Int32.toInt_mul, htwo]
  rw [Int32.toInt_mod]
  by_cases hlt : n.toInt < 2 ^ 30
  · have hexact : (2 * n).toInt = 2 * n.toInt := by
      rw [hperiod]
      exact Int.bmod_eq_of_le (by omega) (by omega)
    rw [hexact]
    exact ⟨rfl, .inl rfl⟩
  · have hedge : n.toInt = 2 ^ 30 := by omega
    have hwrapped : (2 * n).toInt = -(2 * n.toInt) := by
      rw [hperiod, hedge]
      decide
    rw [hwrapped, Int.tmod_neg]
    exact ⟨rfl, .inr (by omega)⟩

variable {i n : Int32} {N : ℕ}

theorem wrap_toInt (hn : n.toInt = N) (hpos : 0 < N) :
    (if i % n < 0 then i % n + n else i % n).toInt = i.toInt % N := by
  have hzero : (0 : Int32).toInt = 0 := rfl
  have hlow : -(N : ℤ) < Int.tmod i.toInt N := Int.lt_tmod_of_pos _ (by omega)
  have hhigh : Int.tmod i.toInt N < N := Int.tmod_lt_of_pos _ (by omega)
  have hN := n.toInt_lt
  have hmod : (i % n).toInt = Int.tmod i.toInt N := by rw [Int32.toInt_mod, hn]
  have hsign : i % n < 0 ↔ (i % n).toInt < 0 := Int32.lt_iff_toInt_lt
  rw [emod_of_tmod (by omega)]
  by_cases hneg : i % n < 0
  · have hneg' := hsign.mp hneg
    rw [if_pos hneg, int32_add_of_range (by omega) (by omega), hmod, hn, if_pos (by omega)]
  · have hpos' := mt hsign.mpr hneg
    rw [if_neg hneg, hmod, if_neg (by omega)]

/-- The remainder by the period of a mirror. -/
theorem period_rem_toInt (hn : n.toInt = N) (hpos : 0 < N) (hle : N ≤ 2 ^ 30) :
    (if i % (2 * n) < 0 then i % (2 * n) + 2 * n else i % (2 * n)).toInt = i.toInt % (2 * N) := by
  have hlow : -(2 * (N : ℤ)) < Int.tmod i.toInt (2 * N) := Int.lt_tmod_of_pos _ (by omega)
  have hhigh : Int.tmod i.toInt (2 * N) < 2 * N := Int.tmod_lt_of_pos _ (by omega)
  obtain ⟨hmod, hperiod⟩ := period_toInt (n := n) (by omega) (by omega) i
  rw [hn] at hmod hperiod
  have hsign : i % (2 * n) < 0 ↔ (i % (2 * n)).toInt < 0 := Int32.lt_iff_toInt_lt
  rw [emod_of_tmod (by omega)]
  by_cases hneg : i % (2 * n) < 0
  · have hneg' := hsign.mp hneg
    have hsum : Int.bmod ((i % (2 * n)).toInt + (2 * n).toInt) (2 ^ 32) = (i % (2 * n)).toInt + 2 * N := by
      rcases hperiod with hp | hp
      · rw [hp]
        exact Int.bmod_eq_of_le (by omega) (by omega)
      · rw [hp, ← Int.add_sub_assoc]
        show Int.bmod ((i % (2 * n)).toInt + 2 * N - ((2 ^ 32 : ℕ) : ℤ)) (2 ^ 32) = _
        rw [Int.sub_bmod_right]
        exact Int.bmod_eq_of_le (by omega) (by omega)
    rw [if_pos hneg, Int32.toInt_add, hsum, hmod, if_pos (by omega)]
  · have hpos' := mt hsign.mpr hneg
    rw [if_neg hneg, hmod, if_neg (by omega)]

theorem mirror_toInt (hn : n.toInt = N) (hpos : 0 < N) (hle : N ≤ 2 ^ 30) {m : Int32}
    (hm : m.toInt = i.toInt % (2 * N)) : (if m < n then m else 2 * n - 1 - m).toInt =
      if i.toInt % (2 * N) < N then i.toInt % (2 * N) else 2 * N - 1 - i.toInt % (2 * N) := by
  have hone : (1 : Int32).toInt = 1 := rfl
  have hrem := Int.emod_nonneg i.toInt (show (2 * (N : ℤ)) ≠ 0 by omega)
  have hlt := Int.emod_lt_of_pos i.toInt (show 0 < 2 * (N : ℤ) by omega)
  have hmn : m < n ↔ i.toInt % (2 * N) < N := by rw [Int32.lt_iff_toInt_lt, hm, hn]
  by_cases hlow : m < n
  · rw [if_pos hlow, if_pos (hmn.mp hlow), hm]
  · have hhigh := mt hmn.mpr hlow
    obtain ⟨-, hperiod⟩ := period_toInt (n := n) (by omega) (by omega) i
    rw [hn] at hperiod
    rw [if_neg hlow, if_neg hhigh, Int32.toInt_sub, Int32.toInt_sub, hone, Int.bmod_sub_bmod, hm]
    rcases hperiod with hp | hp
    · rw [hp]
      exact Int.bmod_eq_of_le (by omega) (by omega)
    · have hshift : (2 * n).toInt - 1 - i.toInt % (2 * N) =
          2 * N - 1 - i.toInt % (2 * N) - ((2 ^ 32 : ℕ) : ℤ) := by
        rw [hp]
        push_cast
        ring
      rw [hshift, Int.sub_bmod_right]
      exact Int.bmod_eq_of_le (by omega) (by omega)

/-- An index of a side of at most `2 ^ 30` texels is the one that the mode names. -/
theorem clampIndex_eq (hn : n.toInt = N) (hpos : 0 < N) (hle : N ≤ 2 ^ 30) (mode : UInt32) :
    coordinate mode i.toInt N =
        (if (clampIndex i n mode).2 then none else some (clampIndex i n mode).1.toInt.toNat) ∧
      0 ≤ (clampIndex i n mode).1.toInt ∧ (clampIndex i n mode).1.toInt < N := by
  have hzero : (0 : Int32).toInt = 0 := rfl
  have hone : (1 : Int32).toInt = 1 := rfl
  unfold coordinate clampIndex
  by_cases hwrap : mode = GRX_TEX_ADDRESS_WRAP
  · have hindex := wrap_toInt (i := i) hn hpos
    have hnonneg := Int.emod_nonneg i.toInt (show (N : ℤ) ≠ 0 by omega)
    have hlt := Int.emod_lt_of_pos i.toInt (show 0 < (N : ℤ) by omega)
    simp only [if_pos hwrap, hindex, Bool.false_eq_true, if_false]
    exact ⟨trivial, hnonneg, hlt⟩
  by_cases hmirror : mode = GRX_TEX_ADDRESS_MIRROR
  · have hrem := Int.emod_nonneg i.toInt (show (2 * (N : ℤ)) ≠ 0 by omega)
    have hlt := Int.emod_lt_of_pos i.toInt (show 0 < 2 * (N : ℤ) by omega)
    have hindex := mirror_toInt (i := i) hn hpos hle (period_rem_toInt hn hpos hle)
    simp only [if_neg hwrap, if_pos hmirror, hindex, Bool.false_eq_true, if_false, true_and]
    split <;> omega
  by_cases hborder : mode = GRX_TEX_ADDRESS_BORDER
  · simp only [if_neg hwrap, if_neg hmirror, if_pos hborder, Int32.lt_iff_toInt_lt, Int32.le_iff_toInt_le, hzero, hn]
    by_cases hout : i.toInt < 0 ∨ (N : ℤ) ≤ i.toInt
    · rw [if_neg (by omega), if_pos hout]
      exact ⟨rfl, by rw [hzero], by rw [hzero]; omega⟩
    · rw [if_pos (by omega), if_neg hout]
      dsimp only
      exact ⟨rfl, by omega, by omega⟩
  · have hlast : (n - 1).toInt = N - 1 := by
      rw [int32_sub_of_range (by omega) (by omega), hn, hone]
    simp only [if_neg hwrap, if_neg hmirror, if_neg hborder, Int32.lt_iff_toInt_lt, Int32.le_iff_toInt_le, hzero, hn,
      Bool.false_eq_true, if_false]
    split_ifs with hneg hover
    · refine ⟨congrArg some ?_, by rw [hzero], by rw [hzero]; omega⟩
      rw [hzero]
      omega
    · refine ⟨congrArg some ?_, by omega, by omega⟩
      rw [hlast]
      omega
    · refine ⟨congrArg some ?_, by omega, by omega⟩
      omega

end Coordinates

/-! ## Fetches -/

section Fetches

variable {cacheLineSize : Int32} {a : ArrayImpl}

/-- The size of a texel, as the fetch of its format has it. -/
def fetchTexel (format : UInt32) : UInt32 :=
  if format = GRX_TEX_FORMAT_FLOAT4 then 16 else 4

theorem fetchFormat_eq (d : TextureDesc) : d.fetchFormat = d.fetch (fetchTexel d.format) := by
  unfold TextureDesc.fetchFormat fetchTexel
  split
  · rfl
  · rfl

theorem fetchTexel_toNat (hmade : a.Made cacheLineSize) : (fetchTexel a.format).toNat = a.texel := by
  have htexel := hmade.texel
  unfold fetchTexel
  unfold ArrayImpl.texel texelBytes at htexel ⊢
  split_ifs at htexel ⊢ with hfour hone hone
  · exact absurd (hfour.symm.trans hone) (by decide)
  · rfl
  · rfl
  · rcases htexel with h | h
    · exact absurd h (by decide)
    · exact absurd h (by decide)

/-- A side in a descriptor. -/
theorem side_toInt {x : UInt64} (h : x.toNat < 2 ^ 31) : x.toUInt32.toInt32.toInt = x.toNat := by
  have hword : x.toUInt32.toNat = x.toNat := by
    rw [UInt64.toNat_toUInt32]
    exact Nat.mod_eq_of_lt (by omega)
  rw [toInt32_toInt (by omega), hword]

/-- The address that is read, with its two products in 32 bits. -/
theorem load_toNat (a : ArrayImpl) (desc : SamplerDesc) (texel : UInt32) (x y : Int32) :
    ((a.texture desc).load texel x y).toNat = (a.data.toNat + y.toUInt32.toNat * a.pitch.toNat % 2 ^ 32 +
      x.toUInt32.toNat * texel.toNat % 2 ^ 32) % 2 ^ 64 := by
  unfold TextureDesc.load ArrayImpl.texture
  dsimp only
  rw [UInt64.toNat_add, UInt64.toNat_add, UInt32.toNat_toUInt64, UInt32.toNat_toUInt64, UInt32.toNat_mul,
    UInt32.toNat_mul, UInt64.toNat_toUInt32, Nat.mul_mod_mod, Nat.mod_add_mod]

/-- The address of a texel of an array whose last column and last row are in 32 bits. -/
theorem load_exact (hmade : a.Made cacheLineSize) (hsound : a.Sound) (hroom : a.data.toNat + a.bytes ≤ 2 ^ 64)
    (hcolumn : (a.width.toNat - 1) * a.texel < 2 ^ 32) (hline : (a.height.toNat - 1) * a.pitch.toNat < 2 ^ 32)
    (desc : SamplerDesc) {x y : Int32} (hx : 0 ≤ x.toInt) (hxw : x.toInt < a.width.toNat) (hy : 0 ≤ y.toInt)
    (hyh : y.toInt < a.height.toNat) : ((a.texture desc).load (fetchTexel a.format) x y).toNat =
      a.data.toNat + a.offset x.toInt.toNat y.toInt.toNat := by
  have hcols : x.toInt.toNat * a.texel ≤ (a.width.toNat - 1) * a.texel := Nat.mul_le_mul_right _ (by omega)
  have hrows : y.toInt.toNat * a.pitch.toNat ≤ (a.height.toNat - 1) * a.pitch.toNat :=
    Nat.mul_le_mul_right _ (by omega)
  have hinside := hsound.inside x.toInt.toNat (by omega) y.toInt.toNat (by omega)
  have htexel := hmade.texel
  unfold ArrayImpl.offset at hinside ⊢
  rw [load_toNat, fetchTexel_toNat hmade, toUInt32_toNat hx, toUInt32_toNat hy,
    Nat.mod_eq_of_lt (lt_of_le_of_lt hcols hcolumn), Nat.mod_eq_of_lt (lt_of_le_of_lt hrows hline),
    Nat.mod_eq_of_lt (by omega)]
  omega

/-- A fetch from an array whose last column and last row are in 32 bits. -/
theorem fetch_exact (hmade : a.Made cacheLineSize) (hexact : a.Exact) (hroom : a.data.toNat + a.bytes ≤ 2 ^ 64)
    (hcolumn : (a.width.toNat - 1) * a.texel < 2 ^ 32) (hline : (a.height.toNat - 1) * a.pitch.toNat < 2 ^ 32)
    (desc : SamplerDesc) (i j : Int32) :
    ((a.texture desc).fetchFormat i j).address = a.named desc i.toInt j.toInt := by
  have hwidthPos := hmade.width
  have hheightPos := hmade.height
  have htexel := hmade.texel
  have hpitch : 4 ≤ a.pitch.toNat := by
    have hle : a.texel ≤ a.width.toNat * a.texel := Nat.le_mul_of_pos_left _ hwidthPos
    have hrow := hexact.row
    omega
  have hwidth : a.width.toNat ≤ 2 ^ 30 := by
    have hmul : (a.width.toNat - 1) * 4 ≤ (a.width.toNat - 1) * a.texel := Nat.mul_le_mul_left _ (by omega)
    omega
  have hheight : a.height.toNat ≤ 2 ^ 30 := by
    have hmul : (a.height.toNat - 1) * 4 ≤ (a.height.toNat - 1) * a.pitch.toNat := Nat.mul_le_mul_left _ hpitch
    omega
  obtain ⟨hx, hxLow, hxHigh⟩ := clampIndex_eq (i := i) (side_toInt (x := a.width) (by omega)) hwidthPos hwidth
    desc.addressX
  obtain ⟨hy, hyLow, hyHigh⟩ := clampIndex_eq (i := j) (side_toInt (x := a.height) (by omega)) hheightPos hheight
    desc.addressY
  rw [fetchFormat_eq]
  unfold ArrayImpl.named
  rw [hx, hy]
  unfold TextureDesc.fetch
  show Fetched.address (if (clampIndex i a.width.toUInt32.toInt32 desc.addressX).2 ||
    (clampIndex j a.height.toUInt32.toInt32 desc.addressY).2 then _ else _) = _
  cases hxb : (clampIndex i a.width.toUInt32.toInt32 desc.addressX).2 with
  | true => rfl
  | false =>
    cases hyb : (clampIndex j a.height.toUInt32.toInt32 desc.addressY).2 with
    | true => rfl
    | false =>
      show some ((a.texture desc).load _ (if (clampIndex i a.width.toUInt32.toInt32 desc.addressX).2 ||
        (clampIndex j a.height.toUInt32.toInt32 desc.addressY).2 then 0 else _) (if
          (clampIndex i a.width.toUInt32.toInt32 desc.addressX).2 ||
        (clampIndex j a.height.toUInt32.toInt32 desc.addressY).2 then 0 else _)).toNat = some _
      rw [hxb, hyb]
      exact congrArg some (load_exact hmade (sound_of_exact hexact) hroom hcolumn hline desc hxLow hxHigh hyLow hyHigh)

/-- A texture with one address mode. -/
def sampler (mode : UInt32) : SamplerDesc where
  addressX := mode
  addressY := mode
  filterMode := 0

/-- A texture whose borders name the first texel has sides that are positive as `int`. -/
theorem sides_pos (hmade : a.Made cacheLineSize)
    (hborder : ((a.texture (sampler GRX_TEX_ADDRESS_BORDER)).fetchFormat 0 0).address =
      a.named (sampler GRX_TEX_ADDRESS_BORDER) 0 0) :
    0 < a.width.toUInt32.toInt32 ∧ 0 < a.height.toUInt32.toInt32 := by
  have hwidth := hmade.width
  have hheight := hmade.height
  have hnamed : ∃ p, a.named (sampler GRX_TEX_ADDRESS_BORDER) 0 0 = some p := by
    have hzero : ∀ {n : ℕ}, 0 < n → coordinate GRX_TEX_ADDRESS_BORDER 0 n = some 0 := by
      intro n hn
      unfold coordinate
      rw [if_neg (by decide), if_neg (by decide), if_pos rfl, if_pos ⟨le_rfl, by omega⟩]
      rfl
    unfold ArrayImpl.named
    show ∃ p, (match coordinate GRX_TEX_ADDRESS_BORDER 0 _, coordinate GRX_TEX_ADDRESS_BORDER 0 _ with
      | some x, some y => some (a.data.toNat + a.offset x y)
      | _, _ => none) = some p
    rw [hzero hwidth, hzero hheight]
    exact ⟨_, rfl⟩
  obtain ⟨p, hp⟩ := hnamed
  rw [hp, fetchFormat_eq] at hborder
  by_contra hnot
  have hflag : ∀ n : Int32, ¬0 < n → (clampIndex 0 n GRX_TEX_ADDRESS_BORDER).2 = true := by
    intro n hn
    unfold clampIndex
    rw [if_neg (by decide), if_neg (by decide), if_pos rfl, if_pos (.inr (Int32.not_lt.mp hn))]
  have hnone : (a.texture (sampler GRX_TEX_ADDRESS_BORDER)).fetch (fetchTexel a.format) 0 0 = .border := by
    have hout : ((clampIndex 0 a.width.toUInt32.toInt32 GRX_TEX_ADDRESS_BORDER).2 ||
        (clampIndex 0 a.height.toUInt32.toInt32 GRX_TEX_ADDRESS_BORDER).2) = true := by
      rw [Bool.or_eq_true]
      rcases not_and_or.mp hnot with h | h
      · exact .inl (hflag _ h)
      · exact .inr (hflag _ h)
    unfold TextureDesc.fetch
    exact if_pos hout
  rw [show (a.texture (sampler GRX_TEX_ADDRESS_BORDER)).format = a.format from rfl, hnone] at hborder
  cases hborder

/-- A clamped fetch reads a texel. -/
theorem fetch_clamp (a : ArrayImpl) (i j : Int32) :
    ((a.texture (sampler GRX_TEX_ADDRESS_CLAMP)).fetchFormat i j).address =
      some ((a.texture (sampler GRX_TEX_ADDRESS_CLAMP)).load (fetchTexel a.format)
        (clampIndex i a.width.toUInt32.toInt32 GRX_TEX_ADDRESS_CLAMP).1
        (clampIndex j a.height.toUInt32.toInt32 GRX_TEX_ADDRESS_CLAMP).1).toNat := by
  rw [fetchFormat_eq]
  rfl

theorem clampIndex_zero {n : Int32} (hn : 0 < n) : (clampIndex 0 n GRX_TEX_ADDRESS_CLAMP).1 = 0 := by
  unfold clampIndex
  rw [if_neg (by decide), if_neg (by decide), if_neg (by decide)]
  dsimp only
  rw [if_neg (by decide), if_neg (Int32.not_le.mpr hn)]

theorem named_clamp {i j : ℕ} (hi : i < a.width.toNat) (hj : j < a.height.toNat) :
    a.named (sampler GRX_TEX_ADDRESS_CLAMP) i j = some (a.data.toNat + a.offset i j) := by
  have hclamp : ∀ {k n : ℕ}, k < n → coordinate GRX_TEX_ADDRESS_CLAMP k n = some k := by
    intro k n hk
    unfold coordinate
    rw [if_neg (by decide), if_neg (by decide), if_neg (by decide), min_eq_left (by omega),
      max_eq_right (by omega), Int.toNat_natCast]
  unfold ArrayImpl.named
  show (match coordinate GRX_TEX_ADDRESS_CLAMP i _, coordinate GRX_TEX_ADDRESS_CLAMP j _ with
    | some x, some y => some (a.data.toNat + a.offset x y)
    | _, _ => none) = _
  rw [hclamp hi, hclamp hj]

theorem coordinate_toInt {k : ℕ} (hk : k < 2 ^ 31) : (Int32.ofNat k).toInt = k :=
  Int32.toInt_ofNat_of_lt hk

/-- Where every fetch reads the texel that is named, the last column and the last row are in 32 bits: the
first one past them is at `2 ^ 32` bytes or more, and is read below that. -/
theorem lasts_of_fetches (hmade : a.Made cacheLineSize) (hexact : a.Exact)
    (hroom : a.data.toNat + a.bytes ≤ 2 ^ 64)
    (hfetches : ∀ desc stored d, grxCreateTextureObject a desc stored = .ok d →
      ∀ i j : Int32, (d.fetchFormat i j).address = a.named desc i.toInt j.toInt) :
    (a.width.toNat - 1) * a.texel < 2 ^ 32 ∧ (a.height.toNat - 1) * a.pitch.toNat < 2 ^ 32 := by
  have hwidthPos := hmade.width
  have hheightPos := hmade.height
  have htexel := hmade.texel
  have hsound := sound_of_exact hexact
  obtain ⟨hxPos, hyPos⟩ := sides_pos hmade (hfetches (sampler GRX_TEX_ADDRESS_BORDER) none _ rfl 0 0)
  have hclamped : ∀ i j : Int32, some ((a.texture (sampler GRX_TEX_ADDRESS_CLAMP)).load (fetchTexel a.format)
      (clampIndex i a.width.toUInt32.toInt32 GRX_TEX_ADDRESS_CLAMP).1
      (clampIndex j a.height.toUInt32.toInt32 GRX_TEX_ADDRESS_CLAMP).1).toNat =
        a.named (sampler GRX_TEX_ADDRESS_CLAMP) i.toInt j.toInt := fun i j =>
    (fetch_clamp a i j).symm.trans (hfetches (sampler GRX_TEX_ADDRESS_CLAMP) none _ rfl i j)
  have hzero : ((0 : Int32).toUInt32).toNat = 0 := rfl
  constructor
  · by_contra hpast
    have hcol : 2 ^ 32 / a.texel * a.texel = 2 ^ 32 ∧ 2 ^ 32 / a.texel < 2 ^ 31 := by
      rcases htexel with h | h <;> rw [h] <;> decide
    have hlt : 2 ^ 32 / a.texel < a.width.toNat := by
      by_contra hge
      have hmul : (a.width.toNat - 1 + 1) * a.texel ≤ 2 ^ 32 / a.texel * a.texel :=
        Nat.mul_le_mul_right _ (by omega)
      rw [Nat.succ_mul] at hmul
      omega
    have hread := hclamped (Int32.ofNat (2 ^ 32 / a.texel)) 0
    have hnamed := named_clamp (a := a) (i := 2 ^ 32 / a.texel) (j := 0) hlt hheightPos
    have hinside := hsound.inside (2 ^ 32 / a.texel) hlt 0 hheightPos
    have hoffset : a.offset (2 ^ 32 / a.texel) 0 = 2 ^ 32 := by
      unfold ArrayImpl.offset
      rw [Nat.zero_mul, Nat.zero_add, hcol.1]
    rw [coordinate_toInt hcol.2] at hread
    have hread := Option.some.inj (hread.trans hnamed)
    rw [hoffset] at hread hinside
    rw [load_toNat, clampIndex_zero hyPos, hzero, Nat.zero_mul, Nat.zero_mod] at hread
    omega
  · by_contra hpast
    have hpitch : 4 ≤ a.pitch.toNat := by
      have hle : a.texel ≤ a.width.toNat * a.texel := Nat.le_mul_of_pos_left _ hwidthPos
      have hrow := hexact.row
      omega
    have hcover : 2 ^ 32 ≤ a.pitch.toNat * Tiles.blocks (2 ^ 32) a.pitch.toNat :=
      Tiles.le_blocks_mul (by omega)
    have hnext : a.pitch.toNat * Tiles.blocks (2 ^ 32) a.pitch.toNat < 2 ^ 32 + a.pitch.toNat :=
      Tiles.blocks_mul_lt (by omega)
    generalize Tiles.blocks (2 ^ 32) a.pitch.toNat = line at hcover hnext
    have hlt : line < a.height.toNat := by
      by_contra hge
      have hmul : (a.height.toNat - 1 + 1) * a.pitch.toNat ≤ line * a.pitch.toNat :=
        Nat.mul_le_mul_right _ (by omega)
      rw [Nat.succ_mul, Nat.mul_comm line] at hmul
      omega
    have hsmall : line < 2 ^ 31 := by
      by_contra hge
      have hmul : a.pitch.toNat * (2 ^ 30 + 2) ≤ a.pitch.toNat * line := Nat.mul_le_mul_left _ (by omega)
      omega
    have hread := hclamped 0 (Int32.ofNat line)
    have hnamed := named_clamp (a := a) (i := 0) (j := line) hwidthPos hlt
    have hinside := hsound.inside 0 hwidthPos line hlt
    have hoffset : a.offset 0 line = a.pitch.toNat * line := by
      unfold ArrayImpl.offset
      rw [Nat.zero_mul, Nat.add_zero, Nat.mul_comm]
    rw [coordinate_toInt hsmall] at hread
    have hread := Option.some.inj (hread.trans hnamed)
    rw [hoffset] at hread hinside
    rw [load_toNat, clampIndex_zero hxPos, hzero, Nat.zero_mul, Nat.zero_mod] at hread
    omega

end Fetches

/-- An array, a copy into it and the textures made from it keep the law if their sizes are in their words,
and only then. -/
theorem texture_law_iff {cacheLineSize : Int32} {acquire : Option GrxError}
    {malloc : UInt64 → Except GrxError UInt64} {out : Bool} {format : UInt32} {width height : UInt64}
    {a : ArrayImpl} (hmalloc : grxMallocArray cacheLineSize acquire malloc out format width height = .ok a)
    (hroom : a.data.toNat + a.bytes ≤ 2 ^ 64) {q : Window} {replies : ℕ → Option GrxError}
    {copied : List RowCopy} (hcopy : grxMemcpy2DToArray a q replies = (copied, none)) :
    TextureLaw a q copied ↔ TextureFits cacheLineSize a q := by
  have hmade := made_of_malloc hmalloc
  have htexel : 4 ≤ a.texel := by rcases hmade.texel with h | h <;> omega
  constructor
  · intro law
    obtain ⟨hrow, hsize⟩ := fits_of_sound hmade law.sound
    have hexact := exact_of_fits hmade hrow hsize
    obtain ⟨hcolumn, hline⟩ := lasts_of_fetches hmade hexact hroom law.fetches
    rw [pitch_exact hmade hrow] at hline
    exact ⟨hrow, hsize, window_of_copies hexact hmade.width htexel hcopy law.copies, hcolumn, hline⟩
  · intro fits
    have hexact := exact_of_fits hmade fits.row fits.size
    have hline := fits.lastRow
    rw [← pitch_exact hmade fits.row] at hline
    refine ⟨sound_of_exact hexact, copies_of_window hexact hroom (by omega) hcopy fits.window, ?_⟩
    intro desc stored d hd i j
    have hdesc : d = a.texture desc := by
      unfold grxCreateTextureObject at hd
      split_ifs at hd
      cases stored with
      | some e => cases hd
      | none => exact (Except.ok.inj hd).symm
    rw [hdesc]
    exact fetch_exact hmade hexact hroom fits.lastColumn hline desc i j

/-- An array of `3 x 2`, and a copy into its second row. -/
theorem texture_law_3x2 : TextureLaw ⟨4096, 64, 3, 2, GRX_TEX_FORMAT_FLOAT1⟩ ⟨1, 1, 512, 8, 2, 1⟩
    [⟨4164, 512, 8⟩] := by
  have hmalloc : grxMallocArray 64 none (fun _ => .ok 4096) true GRX_TEX_FORMAT_FLOAT1 3 2 =
      .ok ⟨4096, 64, 3, 2, GRX_TEX_FORMAT_FLOAT1⟩ := rfl
  have hcopy : grxMemcpy2DToArray ⟨4096, 64, 3, 2, GRX_TEX_FORMAT_FLOAT1⟩ ⟨1, 1, 512, 8, 2, 1⟩ (fun _ => none) =
      ([⟨4164, 512, 8⟩], none) := rfl
  exact (texture_law_iff hmalloc (by decide) hcopy).mpr
    ⟨by decide, by decide, .inl (by decide), by decide, by decide⟩

/-- A column of `65536 x 16385` texels of four bytes: row 16384 is at `2 ^ 32` bytes, and a fetch from it reads
row 0. -/
theorem texture_law_not :
    grxMallocArray 64 none (fun _ => .ok 4096) true GRX_TEX_FORMAT_FLOAT1 65536 16385 =
        .ok ⟨4096, 262144, 65536, 16385, GRX_TEX_FORMAT_FLOAT1⟩ ∧
      ((ArrayImpl.texture ⟨4096, 262144, 65536, 16385, GRX_TEX_FORMAT_FLOAT1⟩
        (sampler GRX_TEX_ADDRESS_CLAMP)).fetchFormat 0 16384).address = some 4096 ∧
      ArrayImpl.named ⟨4096, 262144, 65536, 16385, GRX_TEX_FORMAT_FLOAT1⟩ (sampler GRX_TEX_ADDRESS_CLAMP) 0 16384 =
        some (4096 + 2 ^ 32) ∧
      ∀ q copied, ¬TextureLaw ⟨4096, 262144, 65536, 16385, GRX_TEX_FORMAT_FLOAT1⟩ q copied := by
  have hread : ((ArrayImpl.texture ⟨4096, 262144, 65536, 16385, GRX_TEX_FORMAT_FLOAT1⟩
      (sampler GRX_TEX_ADDRESS_CLAMP)).fetchFormat 0 16384).address = some 4096 := by
    decide
  have hnamed : ArrayImpl.named ⟨4096, 262144, 65536, 16385, GRX_TEX_FORMAT_FLOAT1⟩
      (sampler GRX_TEX_ADDRESS_CLAMP) 0 16384 = some (4096 + 2 ^ 32) := by
    decide
  refine ⟨rfl, hread, hnamed, fun q copied law => ?_⟩
  have hsame := law.fetches (sampler GRX_TEX_ADDRESS_CLAMP) none _ rfl 0 16384
  have hjunk := hread.symm.trans (hsame.trans hnamed)
  exact absurd hjunk (by decide)

end Grxcp.Runtime
