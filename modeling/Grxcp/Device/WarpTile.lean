import Grxcp.Lib.Lanes

/-!
# Tiles of a warp

`thread_block_tile` of `grx_cg.h`, over the shuffles and the vote of `grx_warp.h`. The lanes of a warp go
in lockstep, so a value is one for each lane, and a collective takes the values of all lanes to new ones.
What the instructions do is what `grx_warp.h` says of them. A value moves whole: the header refuses one
that is wider than the machine word it rides in.

Every lane of a tile gets the fold of the tile from `reduce`, and the folds of the ranks up to its own from
the scans (`tile_collectives`).
-/

namespace Grxcp.Warp

/-! ## Instructions -/

/-- What a lane gets from a shuffle with a segment mask and a clamp, of the source lane that it computed:
its own value when the source is outside the segment. -/
def shuffle {T : Type} (v : ℕ → T) (cval mask lane : UInt32) (source : ℤ) : T :=
  let minLane := lane &&& mask
  let maxLane := (lane &&& mask) ||| (cval &&& ~~~mask)
  if (minLane.toNat : ℤ) ≤ source ∧ source ≤ maxLane.toNat then v source.toNat else v lane.toNat

/-- `vx_shfl_up`. -/
def vxShflUp {T : Type} (v : ℕ → T) (bval cval mask lane : UInt32) : T :=
  shuffle v cval mask lane (lane.toNat - bval.toNat)

/-- `vx_shfl_bfly`. -/
def vxShflBfly {T : Type} (v : ℕ → T) (bval cval mask lane : UInt32) : T :=
  shuffle v cval mask lane (lane ^^^ bval).toNat

/-- `vx_vote_ballot`, of a warp of `lanes`. -/
def vxVoteBallot (lanes : ℕ) (predicate : ℕ → Int32) : UInt32 :=
  (List.range lanes).foldl
    (fun bits lane => if predicate lane ≠ 0 then bits ||| (1 <<< UInt32.ofNat lane) else bits) 0

/-! ## The warp's primitives -/

def GRX_FULL_MASK : UInt32 := 0xffffffff

/-- `shfl_control`. -/
def shflControl (warpSize bval : UInt32) (width : Int32) : UInt32 :=
  let w := if 0 < width then width.toUInt32 else warpSize
  let segMask := 0x3f &&& ~~~(w - 1)
  let clamp := (w - 1) &&& 0x3f
  (segMask <<< 12) ||| (clamp <<< 6) ||| (bval &&& 0x3f)

/-- `__shfl_up_sync`. -/
def shflUpSync {T : Type} (warpSize : UInt32) (v : ℕ → T) (delta : UInt32) (width : Int32) (lane : UInt32) : T :=
  let c := shflControl warpSize delta width
  vxShflUp v (c &&& 0x3f) ((c >>> 6) &&& 0x3f) ((c >>> 12) &&& 0x3f) lane

/-- `__shfl_xor_sync`. -/
def shflXorSync {T : Type} (warpSize : UInt32) (v : ℕ → T) (laneMask : Int32) (width : Int32) (lane : UInt32) :
    T :=
  let c := shflControl warpSize laneMask.toUInt32 width
  vxShflBfly v (c &&& 0x3f) ((c >>> 6) &&& 0x3f) ((c >>> 12) &&& 0x3f) lane

/-- `__ballot_sync`. -/
def ballotSync (lanes : ℕ) (mask : UInt32) (predicate : ℕ → Int32) : UInt32 :=
  vxVoteBallot lanes predicate &&& mask

/-! ## `thread_block_tile` -/

/-- `thread_block_tile<Size>`, with what it asserts of its size, on a build of `warp` lanes. -/
structure TileSize where
  Size : ℕ
  warp : ℕ
  pow : ∃ k, Size = 2 ^ k
  fits : Size ≤ warp

section Collectives

variable {T : Type} (t : TileSize)

/-- `Size`, in the code's type. -/
def TileSize.size (t : TileSize) : UInt32 :=
  UInt32.ofNat t.Size

/-- `thread_rank`. -/
def TileSize.threadRank (lane : UInt32) : UInt32 :=
  lane &&& (t.size - 1)

/-- `shfl_up`, of all lanes. -/
def TileSize.shflUp (v : ℕ → T) (delta : ℕ) : ℕ → T := fun lane =>
  shflUpSync (UInt32.ofNat t.warp) v (UInt32.ofNat delta) t.size.toInt32 (UInt32.ofNat lane)

/-- `shfl_xor`, of all lanes. -/
def TileSize.shflXor (v : ℕ → T) (laneMask : ℕ) : ℕ → T := fun lane =>
  shflXorSync (UInt32.ofNat t.warp) v (UInt32.ofNat laneMask).toInt32 t.size.toInt32 (UInt32.ofNat lane)

/-- The loop of `reduce`, from a distance on. -/
def TileSize.reduceFrom (t : TileSize) (op : T → T → T) (v : ℕ → T) (d : ℕ) : ℕ → T :=
  if 0 < d then t.reduceFrom op (fun lane => op (v lane) (t.shflXor v d lane)) (d / 2) else v
termination_by d

/-- `reduce`. -/
def TileSize.reduce (op : T → T → T) (v : ℕ → T) : ℕ → T :=
  t.reduceFrom op v (t.Size / 2)

/-- The loop of `inclusive_scan`, from a distance on. -/
def TileSize.scanFrom (t : TileSize) (op : T → T → T) (v : ℕ → T) (d : ℕ) (hd : 0 < d) : ℕ → T :=
  if d < t.Size then
    t.scanFrom op (fun lane =>
      if UInt32.ofNat d ≤ t.threadRank (UInt32.ofNat lane) then op (t.shflUp v d lane) (v lane) else v lane)
      (2 * d) (by omega)
  else v
termination_by t.Size - d

/-- `inclusive_scan`. -/
def TileSize.inclusiveScan (op : T → T → T) (v : ℕ → T) : ℕ → T :=
  t.scanFrom op v 1 Nat.one_pos

/-- `exclusive_scan`. -/
def TileSize.exclusiveScan (op : T → T → T) (identity : T) (v : ℕ → T) : ℕ → T :=
  let inc := t.inclusiveScan op v
  let sh := t.shflUp inc 1
  fun lane => if t.threadRank (UInt32.ofNat lane) = 0 then identity else sh lane

/-- `ballot`, as a lane gets it. -/
def TileSize.ballot (predicate : ℕ → Int32) (lane : ℕ) : UInt32 :=
  let warpBits := ballotSync t.warp GRX_FULL_MASK predicate
  let base := UInt32.ofNat lane &&& ~~~(t.size - 1)
  let mask : UInt32 := if 32 ≤ t.Size then 0xffffffff else (1 <<< t.size) - 1
  (warpBits >>> base) &&& mask

/-- `any`. -/
def TileSize.any (predicate : ℕ → Int32) (lane : ℕ) : Int32 :=
  if t.ballot predicate lane ≠ 0 then 1 else 0

/-- `all`. -/
def TileSize.all (predicate : ℕ → Int32) (lane : ℕ) : Int32 :=
  let full : UInt32 := if 32 ≤ t.Size then 0xffffffff else (1 <<< t.size) - 1
  if t.ballot predicate lane = full then 1 else 0

end Collectives

/-! ## Segments -/

theorem lane_toNat {lane : ℕ} (h : lane < 64) : (UInt32.ofNat lane).toNat = lane :=
  UInt32.toNat_ofNat_of_lt' (lt_trans h (by decide))

/-- The segment mask of `shfl_control` for a tile. -/
def segMask (k : ℕ) : UInt32 :=
  0x3f &&& ~~~(UInt32.ofNat (2 ^ k) - 1)

theorem width_fields : ∀ k ≤ 6, 0 < (UInt32.ofNat (2 ^ k)).toInt32 ∧
    (UInt32.ofNat (2 ^ k)).toInt32.toUInt32 = UInt32.ofNat (2 ^ k) ∧
      (UInt32.ofNat (2 ^ k) - 1) &&& 0x3f = UInt32.ofNat (2 ^ k - 1) := by
  decide

theorem shflControl_eq (warpSize bval : UInt32) {k : ℕ} (hk : k ≤ 6) :
    shflControl warpSize bval (UInt32.ofNat (2 ^ k)).toInt32 =
      (segMask k <<< 12) ||| (UInt32.ofNat (2 ^ k - 1) <<< 6) ||| (bval &&& 0x3f) := by
  obtain ⟨hpos, hword, hclamp⟩ := width_fields k hk
  unfold shflControl segMask
  rw [if_pos hpos, hword]
  dsimp only
  rw [hclamp]

/-- The control word holds its three fields. -/
theorem control_fields : ∀ k ≤ 6, ∀ bval < 64,
    let c := (segMask k <<< 12) ||| (UInt32.ofNat (2 ^ k - 1) <<< 6) ||| (UInt32.ofNat bval &&& 0x3f)
    c &&& 0x3f = UInt32.ofNat bval ∧ (c >>> 6) &&& 0x3f = UInt32.ofNat (2 ^ k - 1) ∧
      (c >>> 12) &&& 0x3f = segMask k := by
  decide +kernel

/-- A lane's segment is its tile. -/
theorem segment_bounds : ∀ k ≤ 6, ∀ lane < 64,
    (UInt32.ofNat lane &&& segMask k).toNat = lane / 2 ^ k * 2 ^ k ∧
      ((UInt32.ofNat lane &&& segMask k) ||| (UInt32.ofNat (2 ^ k - 1) &&& ~~~segMask k)).toNat =
        lane / 2 ^ k * 2 ^ k + (2 ^ k - 1) := by
  decide +kernel

/-- A lane's rank in its tile, and the tile's first lane. -/
theorem lane_split : ∀ k ≤ 6, ∀ lane < 64,
    (UInt32.ofNat lane &&& (UInt32.ofNat (2 ^ k) - 1)).toNat = lane % 2 ^ k ∧
      (UInt32.ofNat lane &&& ~~~(UInt32.ofNat (2 ^ k) - 1)).toNat = lane / 2 ^ k * 2 ^ k := by
  decide +kernel

/-- The lane across from a lane. -/
theorem across_eq : ∀ j < 6, ∀ lane < 64, (UInt32.ofNat lane ^^^ UInt32.ofNat (2 ^ j)).toNat =
    if lane % (2 * 2 ^ j) < 2 ^ j then lane + 2 ^ j else lane - 2 ^ j := by
  decide +kernel

theorem shuffle_segment {T : Type} (v : ℕ → T) {k lane : ℕ} (hk : k ≤ 6) (hlane : lane < 64) (source : ℤ) :
    shuffle v (UInt32.ofNat (2 ^ k - 1)) (segMask k) (UInt32.ofNat lane) source =
      if ((lane / 2 ^ k * 2 ^ k : ℕ) : ℤ) ≤ source ∧ source ≤ ((lane / 2 ^ k * 2 ^ k + (2 ^ k - 1) : ℕ) : ℤ) then
        v source.toNat
      else v lane := by
  obtain ⟨hmin, hmax⟩ := segment_bounds k hk lane hlane
  unfold shuffle
  dsimp only
  rw [hmin, hmax, lane_toNat hlane]

/-! ## Tiles -/

/-- A tile of the warp, by its first lane. The shuffles have six bits for a lane. -/
structure TileSize.Place (t : TileSize) (base : ℕ) : Prop where
  aligned : t.Size ∣ base
  inside : base + t.Size ≤ t.warp
  warp : t.warp ≤ 64

section Place

variable {T : Type} {t : TileSize} {base r : ℕ}

theorem TileSize.Place.pow (hp : t.Place base) : ∃ k ≤ 6, t.Size = 2 ^ k := by
  obtain ⟨k, hk⟩ := t.pow
  refine ⟨k, ?_, hk⟩
  have hle : 2 ^ k ≤ 2 ^ 6 := by
    rw [← hk]
    have hinside := hp.inside
    have hwarp := hp.warp
    omega
  exact (Nat.pow_le_pow_iff_right Nat.one_lt_two).mp hle

theorem TileSize.Place.lane_lt (hp : t.Place base) (hr : r < t.Size) : base + r < 64 := by
  have hinside := hp.inside
  have hwarp := hp.warp
  omega

theorem TileSize.Place.div_mul (hp : t.Place base) (hr : r < t.Size) :
    (base + r) / t.Size * t.Size = base := by
  obtain ⟨q, rfl⟩ := hp.aligned
  rw [Nat.mul_add_div (Nat.zero_lt_of_lt hr), Nat.div_eq_of_lt hr, Nat.add_zero, Nat.mul_comm]

theorem TileSize.Place.mod (hp : t.Place base) (hr : r < t.Size) : (base + r) % t.Size = r := by
  obtain ⟨q, rfl⟩ := hp.aligned
  rw [Nat.mul_add_mod, Nat.mod_eq_of_lt hr]

theorem threadRank_toNat (hp : t.Place base) (hr : r < t.Size) :
    (t.threadRank (UInt32.ofNat (base + r))).toNat = r := by
  obtain ⟨k, hk, hsize⟩ := hp.pow
  have hrank := (lane_split k hk _ (hp.lane_lt hr)).1
  rw [← hsize, hp.mod hr] at hrank
  exact hrank

/-- `shfl_up` in a tile: from the lane below, and where there is none the lane's own value. -/
theorem shflUp_apply (hp : t.Place base) (v : ℕ → T) {d : ℕ} (hr : r < t.Size) (hd : d < 64) :
    t.shflUp v d (base + r) = if d ≤ r then v (base + (r - d)) else v (base + r) := by
  obtain ⟨k, hk, hsize⟩ := hp.pow
  obtain ⟨hbval, hcval, hmask⟩ := control_fields k hk d hd
  have hlane := hp.lane_lt hr
  have hbase := hp.div_mul hr
  unfold TileSize.shflUp shflUpSync vxShflUp TileSize.size
  rw [hsize, shflControl_eq _ _ hk]
  dsimp only
  rw [hbval, hcval, hmask, shuffle_segment v hk hlane, ← hsize, hbase,
    lane_toNat hlane, lane_toNat hd]
  by_cases hle : d ≤ r
  · rw [if_pos hle, if_pos (by omega)]
    congr 1
    omega
  · rw [if_neg hle, if_neg (by omega)]

/-- `shfl_xor` in a tile, by one bit. -/
theorem shflXor_apply (hp : t.Place base) (v : ℕ → T) {j : ℕ} (hr : r < t.Size) (hj : 2 * 2 ^ j ∣ t.Size) :
    t.shflXor v (2 ^ j) (base + r) =
      if r % (2 * 2 ^ j) < 2 ^ j then v (base + (r + 2 ^ j)) else v (base + (r - 2 ^ j)) := by
  obtain ⟨k, hk, hsize⟩ := hp.pow
  have hjk : j < k := by
    have hle := Nat.le_of_dvd (Nat.zero_lt_of_lt hr) hj
    rw [hsize, ← Nat.pow_succ'] at hle
    exact (Nat.pow_le_pow_iff_right Nat.one_lt_two).mp hle
  have hd : 2 ^ j < 64 := by
    have hlt : 2 ^ j < 2 ^ 6 := (Nat.pow_lt_pow_iff_right Nat.one_lt_two).mpr (by omega)
    exact hlt
  obtain ⟨hbval, hcval, hmask⟩ := control_fields k hk (2 ^ j) hd
  have hlane := hp.lane_lt hr
  have hbase := hp.div_mul hr
  have hword : (UInt32.ofNat (2 ^ j)).toInt32.toUInt32 = UInt32.ofNat (2 ^ j) := (width_fields j (by omega)).2.1
  have hacross := across_eq j (by omega) (base + r) hlane
  have hmod : (base + r) % (2 * 2 ^ j) = r % (2 * 2 ^ j) := by
    obtain ⟨q, rfl⟩ := hj.trans hp.aligned
    rw [Nat.mul_add_mod]
  rw [hmod] at hacross
  -- the pair of a lane is in its tile, since the tile is made of whole pairs
  have hpair : r % (2 * 2 ^ j) < 2 ^ j → r + 2 ^ j < t.Size := by
    intro hlow
    obtain ⟨q, hq⟩ := hj
    have hdiv := Nat.div_add_mod r (2 * 2 ^ j)
    have hlt : r / (2 * 2 ^ j) < q := Nat.div_lt_of_lt_mul (hq ▸ hr)
    have hmul : 2 * 2 ^ j * (r / (2 * 2 ^ j) + 1) ≤ 2 * 2 ^ j * q := Nat.mul_le_mul_left _ hlt
    rw [Nat.mul_add] at hmul
    omega
  have hle : ¬r % (2 * 2 ^ j) < 2 ^ j → 2 ^ j ≤ r := by
    intro hhigh
    have hmodLe := Nat.mod_le r (2 * 2 ^ j)
    omega
  unfold TileSize.shflXor shflXorSync vxShflBfly TileSize.size
  rw [hsize, shflControl_eq _ _ hk, hword]
  dsimp only
  rw [hbval, hcval, hmask, shuffle_segment v hk hlane, ← hsize, hbase, hacross]
  by_cases hlow : r % (2 * 2 ^ j) < 2 ^ j
  · have hin := hpair hlow
    rw [if_pos hlow, if_pos hlow, if_pos (by omega), Int.toNat_natCast, Nat.add_assoc]
  · have hge := hle hlow
    have hfirst : base ≤ base + r - 2 ^ j := by omega
    have hlast : base + r - 2 ^ j ≤ base + (t.Size - 1) :=
      (Nat.sub_le _ _).trans (Nat.add_le_add_left (Nat.le_sub_one_of_lt hr) base)
    rw [if_neg hlow, if_neg hlow, if_pos ⟨Int.ofNat_le.mpr hfirst, Int.ofNat_le.mpr hlast⟩, Int.toNat_natCast,
      Nat.add_sub_assoc hge]

/-! ## The collectives -/

variable {op : T → T → T}

/-- The values of a tile, by rank. -/
def ranks (base : ℕ) (v : ℕ → T) : ℕ → T := fun rank =>
  v (base + rank)

/-- A round of `reduce`, down from a stride to half of it. -/
theorem reduce_step (hp : t.Place base) (hassoc : ∀ a b c, op (op a b) c = op a (op b c))
    (hcomm : ∀ a b, op a b = op b a) {w u : ℕ → T} {j : ℕ} (hj : 2 * 2 ^ j ∣ t.Size)
    (hu : ∀ r < t.Size, u (base + r) = Lanes.comb op w t.Size (2 * 2 ^ j) r) (hr : r < t.Size) :
    op (u (base + r)) (t.shflXor u (2 ^ j) (base + r)) = Lanes.comb op w t.Size (2 ^ j) r := by
  obtain ⟨m, hm⟩ := hj
  have hsize : t.Size = m * (2 * 2 ^ j) := by rw [hm, Nat.mul_comm]
  have hpow : 0 < 2 ^ j := Nat.two_pow_pos j
  have hpos : 0 < m := Nat.pos_of_ne_zero fun hzero => by
    rw [hzero, Nat.zero_mul] at hsize
    omega
  have hdiv := Nat.div_add_mod r (2 * 2 ^ j)
  have hmodLt := Nat.mod_lt r (show 0 < 2 * 2 ^ j by omega)
  rw [shflXor_apply hp u hr ⟨m, hm⟩]
  by_cases hlow : r % (2 * 2 ^ j) < 2 ^ j
  · have hacross : (r + 2 ^ j) % (2 * 2 ^ j) = r % (2 * 2 ^ j) + 2 ^ j := by
      rw [Nat.add_mod, Nat.mod_eq_of_lt (a := 2 ^ j) (by omega), Nat.mod_eq_of_lt (by omega)]
    have hlt : r + 2 ^ j < t.Size := by
      have hquot : r / (2 * 2 ^ j) < m := Nat.div_lt_of_lt_mul (hm ▸ hr)
      have hmul : 2 * 2 ^ j * (r / (2 * 2 ^ j) + 1) ≤ 2 * 2 ^ j * m := Nat.mul_le_mul_left _ hquot
      rw [Nat.mul_add] at hmul
      omega
    rw [if_pos hlow, hu r hr, hu _ hlt, hsize]
    exact Lanes.comb_halve hassoc hcomm w hpos hpow hlow hacross
  · have hge : 2 ^ j ≤ r := (Nat.not_lt.mp hlow).trans (Nat.mod_le r _)
    have hother : (r - 2 ^ j) % (2 * 2 ^ j) = r % (2 * 2 ^ j) - 2 ^ j := by
      have hsplit : r - 2 ^ j = 2 * 2 ^ j * (r / (2 * 2 ^ j)) + (r % (2 * 2 ^ j) - 2 ^ j) := by omega
      rw [hsplit, Nat.mul_add_mod, Nat.mod_eq_of_lt (by omega)]
    have hsame : (r - 2 ^ j) % 2 ^ j = r % 2 ^ j := by
      rw [← Nat.add_mod_right (r - 2 ^ j), Nat.sub_add_cancel hge]
    have hhalve : op (Lanes.comb op w (m * (2 * 2 ^ j)) (2 * 2 ^ j) (r - 2 ^ j))
        (Lanes.comb op w (m * (2 * 2 ^ j)) (2 * 2 ^ j) r) =
          Lanes.comb op w (m * (2 * 2 ^ j)) (2 ^ j) (r - 2 ^ j) :=
      Lanes.comb_halve hassoc hcomm w hpos hpow (by omega) (by omega)
    rw [if_neg hlow, hu r hr, hu (r - 2 ^ j) (by omega), hcomm, hsize, hhalve]
    unfold Lanes.comb
    rw [hsame]

theorem reduceFrom_spec (hp : t.Place base) (hassoc : ∀ a b c, op (op a b) c = op a (op b c))
    (hcomm : ∀ a b, op a b = op b a) {w u : ℕ → T} {j : ℕ} (hj : 2 ^ j ∣ t.Size)
    (hu : ∀ r < t.Size, u (base + r) = Lanes.comb op w t.Size (2 ^ j) r) (hr : r < t.Size) :
    t.reduceFrom op u (2 ^ j / 2) (base + r) = Lanes.run op w (t.Size - 1) := by
  induction j generalizing u with
  | zero =>
    unfold TileSize.reduceFrom
    rw [if_neg (by decide), hu r hr, pow_zero, Lanes.comb_one]
  | succ j ih =>
    have hhalf : 2 ^ (j + 1) / 2 = 2 ^ j := by
      rw [Nat.pow_succ, Nat.mul_div_cancel _ Nat.two_pos]
    rw [Nat.pow_succ'] at hj hu
    unfold TileSize.reduceFrom
    rw [hhalf, if_pos (Nat.two_pow_pos j)]
    exact ih ((Dvd.intro_left 2 rfl).trans hj) fun r hr => reduce_step hp hassoc hcomm hj hu hr

/-- `reduce` leaves the fold of the tile in each of its lanes. -/
theorem reduce_eq (hp : t.Place base) (hassoc : ∀ a b c, op (op a b) c = op a (op b c))
    (hcomm : ∀ a b, op a b = op b a) (v : ℕ → T) (hr : r < t.Size) :
    t.reduce op v (base + r) = Lanes.run op (ranks base v) (t.Size - 1) := by
  obtain ⟨k, -, hsize⟩ := hp.pow
  have hspec := reduceFrom_spec (j := k) hp hassoc hcomm (w := ranks base v) (u := v) (hsize ▸ dvd_rfl)
    (fun r hr => by rw [← hsize, Lanes.comb_self _ hr]; rfl) hr
  rw [← hsize] at hspec
  exact hspec

/-- A round of `inclusive_scan`. -/
theorem scan_step (hp : t.Place base) (hassoc : ∀ a b c, op (op a b) c = op a (op b c)) {w u : ℕ → T} {d : ℕ}
    (hd : 0 < d) (hlt : d < t.Size) (hu : ∀ r < t.Size, u (base + r) = Lanes.window op w d r)
    (hr : r < t.Size) :
    (if UInt32.ofNat d ≤ t.threadRank (UInt32.ofNat (base + r)) then op (t.shflUp u d (base + r)) (u (base + r))
      else u (base + r)) = Lanes.window op w (2 * d) r := by
  have hd64 : d < 64 := by
    have hinside := hp.inside
    have hwarp := hp.warp
    omega
  have hguard : UInt32.ofNat d ≤ t.threadRank (UInt32.ofNat (base + r)) ↔ d ≤ r := by
    rw [UInt32.le_iff_toNat_le, lane_toNat hd64, threadRank_toNat hp hr]
  by_cases hle : d ≤ r
  · rw [if_pos (hguard.mpr hle), shflUp_apply hp u hr hd64, if_pos hle, hu r hr, hu (r - d) (by omega)]
    exact Lanes.window_double hassoc w hd hle
  · -- the lanes below `d` hold all there is already
    rw [if_neg (mt hguard.mp hle), hu r hr, Lanes.window_of_lt w (by omega), Lanes.window_of_lt w (by omega)]

theorem scanFrom_spec (hp : t.Place base) (hassoc : ∀ a b c, op (op a b) c = op a (op b c)) {w u : ℕ → T} {d : ℕ}
    (hd : 0 < d) (hu : ∀ r < t.Size, u (base + r) = Lanes.window op w d r) (hr : r < t.Size) :
    t.scanFrom op u d hd (base + r) = Lanes.run op w r := by
  induction u, d, hd using TileSize.scanFrom.induct t op with
  | case1 u d hd hlt ih =>
    unfold TileSize.scanFrom
    rw [if_pos hlt]
    exact ih fun r hr => scan_step hp hassoc hd hlt hu hr
  | case2 u d hd hge =>
    unfold TileSize.scanFrom
    rw [if_neg hge, hu r hr, Lanes.window_of_lt w (by omega)]

/-- `inclusive_scan` leaves the fold of the ranks up to a lane's own. -/
theorem inclusiveScan_eq (hp : t.Place base) (hassoc : ∀ a b c, op (op a b) c = op a (op b c)) (v : ℕ → T)
    (hr : r < t.Size) : t.inclusiveScan op v (base + r) = Lanes.run op (ranks base v) r :=
  scanFrom_spec hp hassoc Nat.one_pos (fun r _ => (Lanes.window_one (ranks base v) r).symm) hr

/-- `exclusive_scan` leaves the fold of the ranks below a lane's own. -/
theorem exclusiveScan_eq (hp : t.Place base) (hassoc : ∀ a b c, op (op a b) c = op a (op b c)) (identity : T)
    (v : ℕ → T) (hr : r < t.Size) : t.exclusiveScan op identity v (base + r) =
      if r = 0 then identity else Lanes.run op (ranks base v) (r - 1) := by
  have hrank : t.threadRank (UInt32.ofNat (base + r)) = 0 ↔ r = 0 := by
    rw [← UInt32.toNat_inj, threadRank_toNat hp hr]
    rfl
  unfold TileSize.exclusiveScan
  by_cases hzero : r = 0
  · rw [if_pos (hrank.mpr hzero), if_pos hzero]
  · rw [if_neg (mt hrank.mp hzero), if_neg hzero, shflUp_apply hp _ hr (by decide), if_pos (by omega),
      inclusiveScan_eq hp hassoc v (by omega)]

/-! ## Votes -/

theorem oneBit_toNat : ∀ lane < 32, ((1 : UInt32) <<< UInt32.ofNat lane).toNat = 2 ^ lane := by
  decide

/-- A bit of a ballot is a lane of the warp whose predicate holds. -/
theorem vxVoteBallot_testBit {lanes : ℕ} (hlanes : lanes ≤ 32) (predicate : ℕ → Int32) (i : ℕ) :
    (vxVoteBallot lanes predicate).toNat.testBit i = decide (i < lanes ∧ predicate i ≠ 0) := by
  induction lanes with
  | zero =>
    show Nat.testBit 0 i = _
    rw [Nat.zero_testBit]
    exact (decide_eq_false fun h => Nat.not_lt_zero i h.1).symm
  | succ n ih =>
    have hlast : vxVoteBallot (n + 1) predicate = if predicate n ≠ 0 then
        vxVoteBallot n predicate ||| (1 <<< UInt32.ofNat n) else vxVoteBallot n predicate := by
      unfold vxVoteBallot
      rw [List.range_succ, List.foldl_append]
      rfl
    rw [hlast]
    by_cases hp : predicate n ≠ 0
    · rw [if_pos hp, UInt32.toNat_or, Nat.testBit_or, ih (by omega), oneBit_toNat n (by omega),
        Nat.testBit_two_pow, ← Bool.decide_or]
      apply decide_eq_decide.mpr
      constructor
      · rintro (⟨hi, hv⟩ | rfl)
        · exact ⟨by omega, hv⟩
        · exact ⟨by omega, hp⟩
      · rintro ⟨hi, hv⟩
        by_cases hin : i = n
        · exact .inr hin.symm
        · exact .inl ⟨by omega, hv⟩
    · rw [if_neg hp, ih (by omega)]
      apply decide_eq_decide.mpr
      constructor
      · rintro ⟨hi, hv⟩
        exact ⟨by omega, hv⟩
      · rintro ⟨hi, hv⟩
        have hne : i ≠ n := by
          rintro rfl
          exact hp hv
        exact ⟨by omega, hv⟩

theorem tileMask_pow : ∀ k ≤ 5,
    (if 32 ≤ 2 ^ k then 0xffffffff else (1 <<< UInt32.ofNat (2 ^ k)) - 1 : UInt32).toNat = 2 ^ 2 ^ k - 1 := by
  decide

/-- The mask of a tile's bits, of a warp whose vote fits in a word. -/
theorem tileMask_toNat (hp : t.Place base) (hwarp : t.warp ≤ 32) :
    (if 32 ≤ t.Size then 0xffffffff else (1 <<< UInt32.ofNat t.Size) - 1 : UInt32).toNat = 2 ^ t.Size - 1 := by
  obtain ⟨k, hk⟩ := t.pow
  have hle : 2 ^ k ≤ 2 ^ 5 := by
    rw [← hk]
    have hinside := hp.inside
    omega
  rw [hk]
  exact tileMask_pow k ((Nat.pow_le_pow_iff_right Nat.one_lt_two).mp hle)

/-- `ballot` has a bit for each lane of the tile whose predicate holds, by rank, and no other. -/
theorem ballot_testBit (hp : t.Place base) (hwarp : t.warp ≤ 32) (predicate : ℕ → Int32) (hr : r < t.Size) (i : ℕ) :
    (t.ballot predicate (base + r)).toNat.testBit i = decide (i < t.Size ∧ predicate (base + i) ≠ 0) := by
  obtain ⟨k, hk, hsize⟩ := hp.pow
  have hbase := (lane_split k hk _ (hp.lane_lt hr)).2
  rw [← hsize, hp.div_mul hr] at hbase
  have hmask := tileMask_toNat hp hwarp
  have hinside := hp.inside
  unfold TileSize.ballot ballotSync GRX_FULL_MASK TileSize.size
  dsimp only
  rw [UInt32.toNat_and, hmask, Nat.testBit_and, Nat.testBit_two_pow_sub_one, UInt32.toNat_shiftRight,
    Nat.testBit_shiftRight, hbase, UInt32.toNat_and, Nat.testBit_and, vxVoteBallot_testBit hwarp]
  have hfull : ((0xffffffff : UInt32).toNat).testBit (base % 32 + i) = decide (base % 32 + i < 32) :=
    Nat.testBit_two_pow_sub_one 32 _
  have hmod : base % 32 = base := Nat.mod_eq_of_lt (by omega)
  rw [hfull, hmod, ← Bool.decide_and, ← Bool.decide_and]
  apply decide_eq_decide.mpr
  constructor
  · rintro ⟨⟨⟨-, hv⟩, -⟩, hi⟩
    exact ⟨hi, hv⟩
  · rintro ⟨hi, hv⟩
    exact ⟨⟨⟨by omega, hv⟩, by omega⟩, hi⟩

theorem any_iff (hp : t.Place base) (hwarp : t.warp ≤ 32) (predicate : ℕ → Int32) (hr : r < t.Size) :
    t.any predicate (base + r) ≠ 0 ↔ ∃ i < t.Size, predicate (base + i) ≠ 0 := by
  have hbits := ballot_testBit hp hwarp predicate hr
  have hany : t.any predicate (base + r) ≠ 0 ↔ t.ballot predicate (base + r) ≠ 0 := by
    unfold TileSize.any
    split
    next h => exact ⟨fun _ => h, fun _ => by decide⟩
    next h => exact ⟨fun hne => absurd rfl hne, fun hne => absurd hne h⟩
  rw [hany]
  constructor
  · intro hne
    by_contra hnone
    push Not at hnone
    apply hne
    rw [← UInt32.toNat_inj]
    apply Nat.eq_of_testBit_eq
    intro i
    rw [hbits, UInt32.toNat_zero, Nat.zero_testBit]
    exact decide_eq_false fun h => h.2 (hnone i h.1)
  · rintro ⟨i, hi, hv⟩ hzero
    have hbit := hbits i
    rw [hzero, UInt32.toNat_zero, Nat.zero_testBit, decide_eq_true ⟨hi, hv⟩] at hbit
    exact Bool.false_ne_true hbit

theorem all_iff (hp : t.Place base) (hwarp : t.warp ≤ 32) (predicate : ℕ → Int32) (hr : r < t.Size) :
    t.all predicate (base + r) ≠ 0 ↔ ∀ i < t.Size, predicate (base + i) ≠ 0 := by
  have hbits := ballot_testBit hp hwarp predicate hr
  have hfull := tileMask_toNat hp hwarp
  have hall : t.all predicate (base + r) ≠ 0 ↔ t.ballot predicate (base + r) =
      (if 32 ≤ t.Size then 0xffffffff else (1 <<< UInt32.ofNat t.Size) - 1 : UInt32) := by
    unfold TileSize.all TileSize.size
    dsimp only
    generalize (if 32 ≤ t.Size then 0xffffffff else (1 <<< UInt32.ofNat t.Size) - 1 : UInt32) = full
    split
    next h => exact ⟨fun _ => h, fun _ => by decide⟩
    next h => exact ⟨fun hne => absurd rfl hne, fun heq => absurd heq h⟩
  rw [hall, ← UInt32.toNat_inj, hfull]
  constructor
  · intro heq i hi
    have hbit := hbits i
    rw [heq, Nat.testBit_two_pow_sub_one, decide_eq_true hi] at hbit
    exact (of_decide_eq_true hbit.symm).2
  · intro h
    apply Nat.eq_of_testBit_eq
    intro i
    rw [hbits, Nat.testBit_two_pow_sub_one]
    apply decide_eq_decide.mpr
    exact ⟨fun hi => hi.1, fun hi => ⟨hi, h i hi⟩⟩

/-- Every lane of a tile gets from the collectives what they are for. -/
theorem tile_collectives (t : TileSize) (base : ℕ) (hp : t.Place base) (hwarp : t.warp ≤ 32) (r : ℕ)
    (hr : r < t.Size) :
    (∀ (T : Type) (op : T → T → T) (v : ℕ → T), (∀ a b c, op (op a b) c = op a (op b c)) →
        (∀ a b, op a b = op b a) → t.reduce op v (base + r) = Lanes.run op (ranks base v) (t.Size - 1)) ∧
      (∀ (T : Type) (op : T → T → T) (v : ℕ → T), (∀ a b c, op (op a b) c = op a (op b c)) →
        t.inclusiveScan op v (base + r) = Lanes.run op (ranks base v) r) ∧
      (∀ (T : Type) (op : T → T → T) (identity : T) (v : ℕ → T), (∀ a b c, op (op a b) c = op a (op b c)) →
        t.exclusiveScan op identity v (base + r) =
          if r = 0 then identity else Lanes.run op (ranks base v) (r - 1)) ∧
      ∀ predicate : ℕ → Int32,
        (∀ i, (t.ballot predicate (base + r)).toNat.testBit i =
          decide (i < t.Size ∧ predicate (base + i) ≠ 0)) ∧
        (t.all predicate (base + r) ≠ 0 ↔ ∀ i < t.Size, predicate (base + i) ≠ 0) ∧
        (t.any predicate (base + r) ≠ 0 ↔ ∃ i < t.Size, predicate (base + i) ≠ 0) := by
  refine ⟨fun T op v hassoc hcomm => reduce_eq hp hassoc hcomm v hr,
    fun T op v hassoc => inclusiveScan_eq hp hassoc v hr,
    fun T op identity v hassoc => exclusiveScan_eq hp hassoc identity v hr,
    fun predicate => ⟨ballot_testBit hp hwarp predicate hr, all_iff hp hwarp predicate hr,
      any_iff hp hwarp predicate hr⟩⟩

end Place

theorem four_pow : ∃ k, 4 = 2 ^ k :=
  ⟨2, rfl⟩

/-- Tiles of four on a warp of eight. -/
def fourOfEight : TileSize where
  Size := 4
  warp := 8
  pow := four_pow
  fits := by decide

theorem place_upper : fourOfEight.Place 4 :=
  ⟨⟨1, rfl⟩, by decide, by decide⟩

/-- The upper tile, lanes 4 to 7: a sum, a scan whose operation does not commute, and a vote. -/
theorem tile_collectives_upper :
    fourOfEight.reduce (· + ·) (fun lane => lane) 6 = 22 ∧
      fourOfEight.inclusiveScan (· ++ ·) (fun lane => [lane]) 6 = [4, 5, 6] ∧
      fourOfEight.exclusiveScan (· ++ ·) [] (fun lane => [lane]) 6 = [4, 5] ∧
      (fourOfEight.any (fun lane => if lane = 3 then 1 else 0) 6 ≠ 0 ↔
        ∃ i < 4, (if 4 + i = 3 then 1 else 0 : Int32) ≠ 0) := by
  obtain ⟨hreduce, hinclusive, hexclusive, hvotes⟩ :=
    tile_collectives fourOfEight 4 place_upper (by decide) 2 (by decide)
  exact ⟨hreduce ℕ (· + ·) _ Nat.add_assoc Nat.add_comm,
    hinclusive (List ℕ) (· ++ ·) _ List.append_assoc,
    hexclusive (List ℕ) (· ++ ·) [] _ List.append_assoc, (hvotes _).2.2⟩

end Grxcp.Warp
