import Grxcp.Transport.HostSide

/-!
# What is in a line

The descriptor reads back as the host packed it, a record keeps the host's fields and holds its status
and index, and the results' lines, put together again, unpack to the sums.
-/

namespace Grxcp.BoardTransport

/-! ## Words -/

theorem byte_toNat (v i : ℕ) : (byte v i).toNat = v / 256 ^ i % 256 := by
  unfold byte
  rw [BitVec.toNat_ofNat]

theorem word_bytes (v : ℕ) :
    (byte v 0).toNat + 256 * (byte v 1).toNat + 256 ^ 2 * (byte v 2).toNat + 256 ^ 3 *
    (byte v 3).toNat = v % 2 ^ 32 := by
  simp only [byte_toNat]
  norm_num
  omega

theorem long_bytes (v : ℕ) :
    ((byte v 0).toNat + 256 * (byte v 1).toNat + 256 ^ 2 * (byte v 2).toNat + 256 ^ 3 * (byte v 3).toNat) +
      256 ^ 4 * ((byte v 4).toNat + 256 * (byte v 5).toNat + 256 ^ 2 * (byte v 6).toNat + 256 ^ 3 * (byte v 7).toNat) =
      v % 2 ^ 64 := by
  simp only [byte_toNat]
  norm_num
  omega

theorem byteAt_append_left {xs : Line} (ys : Line) {off : ℕ} (h : off < xs.length) :
    byteAt (xs ++ ys) off = byteAt xs off := by
  unfold byteAt
  rw [List.getD_eq_getElem?_getD, List.getD_eq_getElem?_getD, List.getElem?_append_left h]

theorem byteAt_append_right {xs : Line} (ys : Line) (off : ℕ) {k : ℕ} (h : xs.length = k) :
    byteAt (xs ++ ys) (k + off) = byteAt ys off := by
  unfold byteAt
  rw [List.getD_eq_getElem?_getD, List.getD_eq_getElem?_getD, List.getElem?_append_right (by omega),
    show k + off - xs.length = off by omega]

theorem u32_append_left {xs : Line} (ys : Line) {off : ℕ} (h : off + 3 < xs.length) :
    u32 (xs ++ ys) off = u32 xs off := by
  unfold u32
  rw [byteAt_append_left ys (by omega), byteAt_append_left ys (by omega), byteAt_append_left ys (by omega),
    byteAt_append_left ys (by omega)]

theorem u32_append_right {xs : Line} (ys : Line) (off : ℕ) {k : ℕ} (h : xs.length = k) :
    u32 (xs ++ ys) (k + off) = u32 ys off := by
  unfold u32
  rw [byteAt_append_right ys _ h, show k + off + 1 = k + (off + 1) by omega, byteAt_append_right ys _ h,
    show k + off + 2 = k + (off + 2) by omega, byteAt_append_right ys _ h,
    show k + off + 3 = k + (off + 3) by omega, byteAt_append_right ys _ h]

theorem u32_le32 (v : ℕ) (rest : Line) : u32 (le32 v ++ rest) 0 = v % 2 ^ 32 :=
  word_bytes v

theorem i32_leInt {v : ℤ} (hlo : -2 ^ 31 ≤ v) (hhi : v < 2 ^ 31) (rest : Line) : i32 (leInt v ++ rest) 0 = v := by
  unfold i32 leInt
  rw [u32_le32, Nat.mod_eq_of_lt (by omega), Int.toNat_of_nonneg (by omega)]
  have hmod : ((v % 2 ^ 32 : ℤ)).bmod (2 ^ 32) = v.bmod (2 ^ 32) := Int.emod_bmod v (2 ^ 32)
  rw [hmod]
  exact Int.bmod_eq_of_le (by omega) (by omega)

/-! ## Records -/

/-- The fields of a slot that the host wrote. -/
theorem fields_length {d : Line} (h : d.length = LINE) : (d.take 0x30).length = 0x30 := by
  rw [List.length_take, h]
  rfl

theorem take_fields {d : Line} (h : d.length = LINE) (xs : Line) : (d.take 0x30 ++ xs).take 0x30 = d.take 0x30 := by
  rw [List.take_append_of_le_length (fields_length h).ge, List.take_take, Nat.min_self]

theorem recordOf_take {d : Line} (h : d.length = LINE) (st index : ℕ) :
    (recordOf d st index).take 0x30 = d.take 0x30 :=
  take_fields h _

theorem recordOf_length {d : Line} (h : d.length = LINE) (st index : ℕ) : (recordOf d st index).length = LINE := by
  unfold recordOf
  rw [List.length_append, fields_length h]
  rfl

theorem recordOf_status {d : Line} (h : d.length = LINE) (st index : ℕ) :
    u32 (recordOf d st index) 0x30 = st % 2 ^ 32 := by
  unfold recordOf
  rw [show (0x30 : ℕ) = 0x30 + 0 from rfl, u32_append_right _ 0 (fields_length h), List.append_assoc, u32_le32]

theorem recordOf_index {d : Line} (h : d.length = LINE) (st index : ℕ) :
    u32 (recordOf d st index) 0x34 = index % 2 ^ 32 := by
  unfold recordOf
  rw [show (0x34 : ℕ) = 0x30 + 4 from rfl, u32_append_right _ 4 (fields_length h), List.append_assoc,
    show (4 : ℕ) = 4 + 0 from rfl, u32_append_right _ 0 (show (le32 st).length = 4 from rfl), u32_le32]

/-- A slot that the host has ended as lost. -/
def lostOf (d : Line) : Line :=
  d.take 0x30 ++ le32 LOST ++ d.drop 0x34

theorem lostOf_take {d : Line} (h : d.length = LINE) : (lostOf d).take 0x30 = d.take 0x30 := by
  unfold lostOf
  rw [List.append_assoc, take_fields h]

theorem lostOf_status {d : Line} (h : d.length = LINE) : u32 (lostOf d) 0x30 = LOST := by
  unfold lostOf
  rw [List.append_assoc, show (0x30 : ℕ) = 0x30 + 0 from rfl, u32_append_right _ 0 (fields_length h), u32_le32]
  rfl

theorem lostOf_length {d : Line} (h : d.length = LINE) : (lostOf d).length = LINE := by
  unfold lostOf
  rw [List.length_append, List.length_append, fields_length h, List.length_drop, h]
  rfl

/-! ## The descriptor -/

/-- The fields of a descriptor, as the module unpacks them. -/
theorem packDesc_fields (sv target fmt M K N act wgt out : ℕ) :
    let d := packDesc sv target fmt M K N act wgt out
    u32 d 0 = sv % 2 ^ 32 ∧ u32 d 4 = target % 2 ^ 32 ∧ u32 d 8 = fmt % 2 ^ 32 ∧ u32 d 12 = M % 2 ^ 32 ∧
      u32 d 16 = K % 2 ^ 32 ∧ u32 d 20 = N % 2 ^ 32 ∧ u64 d 24 = act % 2 ^ 64 ∧ u64 d 32 = wgt % 2 ^ 64 ∧
      u64 d 40 = out % 2 ^ 64 ∧ u32 d 0x30 = PENDING := by
  dsimp only
  unfold packDesc le32 le64
  simp only [List.cons_append, List.nil_append, u64, u32, byteAt, List.getD_cons_succ, List.getD_cons_zero]
  exact ⟨word_bytes sv, word_bytes target, word_bytes fmt, word_bytes M, word_bytes K, word_bytes N, long_bytes act,
    long_bytes wgt, long_bytes out, word_bytes 0⟩

theorem packDesc_length (sv target fmt M K N act wgt out : ℕ) :
    (packDesc sv target fmt M K N act wgt out).length = LINE :=
  rfl

/-! ## Results -/

/-- The lines of a buffer, put together. -/
theorem flatMap_lineOf (raw : Line) (n : ℕ) : ((List.range n).flatMap (lineOf raw)) = raw.take (n * LINE) := by
  induction n with
  | zero => rw [Nat.zero_mul, List.take_zero, List.range_zero, List.flatMap_nil]
  | succ n ih =>
    rw [List.range_succ, List.flatMap_append, ih, List.flatMap_singleton, Nat.succ_mul, List.take_add]
    rfl

theorem flatMap_leInt_length (sums : List ℤ) : (sums.flatMap leInt).length = sums.length * R_BYTES := by
  induction sums with
  | nil => rfl
  | cons v sums ih =>
    rw [List.flatMap_cons, List.length_append, ih, List.length_cons, Nat.succ_mul, Nat.add_comm]
    rfl

/-- The sums unpack from the results' bytes. -/
theorem i32_flatMap (sums : List ℤ) (h : ∀ v ∈ sums, -2 ^ 31 ≤ v ∧ v < 2 ^ 31) (pad : Line) (j : ℕ)
    (hj : j < sums.length) :
    i32 (sums.flatMap leInt ++ pad) (4 * j) = sums[j] := by
  induction sums generalizing j with
  | nil => exact absurd hj (Nat.not_lt_zero j)
  | cons v sums ih =>
    rw [List.flatMap_cons, List.append_assoc]
    cases j with
    | zero => exact i32_leInt (h v List.mem_cons_self).1 (h v List.mem_cons_self).2 _
    | succ j =>
      have hstep :
          i32 (leInt v ++ (sums.flatMap leInt ++ pad)) (4 * (j + 1)) = i32 (sums.flatMap leInt ++ pad) (4 * j) := by
        unfold i32
        rw [show 4 * (j + 1) = 4 + 4 * j by omega, u32_append_right _ _ (show (leInt v).length = 4 from rfl)]
      rw [hstep, ih (fun w hw => h w (List.mem_cons_of_mem v hw)) j (Nat.lt_of_succ_lt_succ hj)]
      rfl

theorem lines_mul_le (n : ℕ) : n ≤ lines n * LINE := by
  unfold lines
  change n ≤ (n + 63) / 64 * 64
  omega

theorem resultBytes_length (sums : List ℤ) :
    (resultBytes sums).length = lines (sums.length * R_BYTES) * LINE := by
  unfold resultBytes
  dsimp only
  rw [List.length_append, List.length_replicate, flatMap_leInt_length]
  have h := lines_mul_le (sums.length * R_BYTES)
  omega

/-- Every sum, read back from the buffer that has all its lines. -/
theorem unpack_results (sums : List ℤ) (h : ∀ v ∈ sums, -2 ^ 31 ≤ v ∧ v < 2 ^ 31) :
    ((List.range sums.length).map fun j =>
      i32 ((List.range (lines (sums.length * R_BYTES))).flatMap (lineOf (resultBytes sums))) (4 * j)) = sums := by
  rw [flatMap_lineOf, List.take_of_length_le (resultBytes_length sums).le]
  refine List.ext_getElem (by rw [List.length_map, List.length_range]) fun j hj hj' => ?_
  rw [List.getElem_map, List.getElem_range]
  exact i32_flatMap sums h _ j hj'

theorem gemm_length (A W : List ℤ) (M K N s : ℕ) : (gemm A W M K N s).length = M * N := by
  unfold gemm
  rw [List.length_flatMap]
  simp only [List.length_map, List.length_range, List.map_const', List.sum_replicate, smul_eq_mul]

theorem sum_bounds (xs : List ℤ) (h : ∀ v ∈ xs, -16384 ≤ v ∧ v ≤ 16384) :
    -16384 * (xs.length : ℤ) ≤ xs.sum ∧ xs.sum ≤ 16384 * (xs.length : ℤ) := by
  induction xs with
  | nil => exact ⟨le_rfl, le_rfl⟩
  | cons v xs ih =>
    obtain ⟨hlo, hhi⟩ := ih fun w hw => h w (List.mem_cons_of_mem v hw)
    obtain ⟨hvlo, hvhi⟩ := h v List.mem_cons_self
    rw [List.sum_cons, List.length_cons]
    push_cast
    constructor <;> linarith

theorem toInt_bounds (b : BitVec 8) : -128 ≤ b.toInt ∧ b.toInt ≤ 127 := by
  have hlo := BitVec.le_toInt b
  have hhi := BitVec.toInt_lt (x := b)
  omega

theorem getD_bounds (xs : Line) (i : ℕ) :
    -128 ≤ (xs.map BitVec.toInt).getD i 0 ∧ (xs.map BitVec.toInt).getD i 0 ≤ 127 := by
  rw [List.getD_eq_getElem?_getD, List.getElem?_map]
  cases xs[i]? with
  | none => decide
  | some b => exact toInt_bounds b

/-- The sums of bytes fit the results' words, as long as the products are few enough. -/
theorem gemm_bounds (A W : Line) (M K N s : ℕ) (hK : K < 2 ^ 17) :
    ∀ v ∈ gemm (A.map BitVec.toInt) (W.map BitVec.toInt) M K N s, -2 ^ 31 ≤ v ∧ v < 2 ^ 31 := by
  intro v hv
  unfold gemm at hv
  obtain ⟨m, -, hv⟩ := List.mem_flatMap.mp hv
  obtain ⟨n, -, rfl⟩ := List.mem_map.mp hv
  have hsum := sum_bounds ((List.range K).map fun k =>
    (A.map BitVec.toInt).getD (m * K + k) 0 * (W.map BitVec.toInt).getD (k * N + n) 0) (by
      intro x hx
      obtain ⟨k, -, rfl⟩ := List.mem_map.mp hx
      obtain ⟨ha, ha'⟩ := getD_bounds A (m * K + k)
      obtain ⟨hw, hw'⟩ := getD_bounds W (k * N + n)
      constructor <;> nlinarith)
  rw [List.length_map, List.length_range] at hsum
  have herr : s >>> ((m * N + n) % 30) &&& 3 ≤ 3 := Nat.and_le_right
  omega

theorem gemmSeed_mod (seed i : ℕ) : gemmSeed seed (i % 2 ^ 32) = gemmSeed seed i := by
  unfold gemmSeed
  rw [Nat.mod_mod]

end Grxcp.BoardTransport
