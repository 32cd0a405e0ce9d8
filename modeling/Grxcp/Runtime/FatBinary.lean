import Grxcp.Runtime.Memory

/-!
# The fat binary container

`grx_abi.h` and `select_image` of `module.cpp`: a header of 16 bytes, a table of entries of 32 bytes
each, and payloads at the offsets that the entries give. A blob is read as the code reads it: a read
that does not lie inside the blob has no value, and neither has a run that makes one.
-/

namespace Grxcp.Runtime

/-! ## Bytes -/

/-- Bytes at an address, with their `size_t` count. -/
structure Blob where
  bytes : List UInt8
  fits : bytes.length < 2 ^ 64

namespace Blob

def size (b : Blob) : ℕ :=
  b.bytes.length

theorem size_lt (b : Blob) : b.size < 2 ^ 64 :=
  b.fits

end Blob

/-- The number that bytes are, the lowest first. -/
def ofLE : List UInt8 → ℕ
  | [] => 0
  | x :: xs => x.toNat + 256 * ofLE xs

theorem ofLE_lt (xs : List UInt8) : ofLE xs < 256 ^ xs.length := by
  induction xs with
  | nil => exact Nat.one_pos
  | cons x xs ih =>
    have hx : x.toNat < 256 := x.toNat_lt
    show x.toNat + 256 * ofLE xs < 256 ^ (xs.length + 1)
    rw [pow_succ]
    omega

theorem ofLE_append (xs ys : List UInt8) : ofLE (xs ++ ys) = ofLE xs + 256 ^ xs.length * ofLE ys := by
  induction xs with
  | nil => simp [ofLE]
  | cons x xs ih =>
    show x.toNat + 256 * ofLE (xs ++ ys) = x.toNat + 256 * ofLE xs + 256 ^ (xs.length + 1) * ofLE ys
    rw [ih, pow_succ]
    ring

/-- The low bytes of a number that is below `256 ^ n`. -/
theorem ofLE_take_of_lt {xs : List UInt8} {n : ℕ} (hn : n ≤ xs.length) (h : ofLE xs < 256 ^ n) :
    ofLE (xs.take n) = ofLE xs := by
  have hsplit := ofLE_append (xs.take n) (xs.drop n)
  rw [List.take_append_drop, List.length_take_of_le hn] at hsplit
  have hzero : ofLE (xs.drop n) = 0 := by
    by_contra hne
    have hle : 256 ^ n * 1 ≤ 256 ^ n * ofLE (xs.drop n) :=
      Nat.mul_le_mul_left _ (Nat.one_le_iff_ne_zero.mpr hne)
    omega
  rw [hsplit, hzero, Nat.mul_zero, Nat.add_zero]

/-- The bytes of a number, the lowest first. -/
def toLE : ℕ → ℕ → List UInt8
  | 0, _ => []
  | n + 1, v => UInt8.ofNat v :: toLE n (v / 256)

theorem toLE_length (n v : ℕ) : (toLE n v).length = n := by
  induction n generalizing v with
  | zero => rfl
  | succ n ih => exact congrArg Nat.succ (ih _)

/-- A number of `n` bytes is what its bytes are. -/
theorem ofLE_toLE {n v : ℕ} (hv : v < 256 ^ n) : ofLE (toLE n v) = v := by
  induction n generalizing v with
  | zero =>
    rw [pow_zero] at hv
    exact (Nat.lt_one_iff.mp hv).symm
  | succ n ih =>
    have hrest : v / 256 < 256 ^ n := by
      rw [Nat.div_lt_iff_lt_mul (by norm_num), ← pow_succ]
      exact hv
    have hlow : (UInt8.ofNat v).toNat = v % 256 := UInt8.toNat_ofNat'
    show (UInt8.ofNat v).toNat + 256 * ofLE (toLE n (v / 256)) = v
    rw [ih hrest, hlow]
    exact Nat.mod_add_div v 256

namespace Blob

/-- `n` bytes at `at`, where the blob has them. -/
def read (b : Blob) (off n : ℕ) : Option (List UInt8) :=
  if off + n ≤ b.size then some ((b.bytes.drop off).take n) else none

/-- The unsigned integer of `n` bytes at `at`. -/
def uint (b : Blob) (off n : ℕ) : Option ℕ :=
  (b.read off n).map ofLE

theorem read_eq_some_iff (b : Blob) (off n : ℕ) (xs : List UInt8) :
    b.read off n = some xs ↔ off + n ≤ b.size ∧ (b.bytes.drop off).take n = xs := by
  unfold read
  split
  · next h => simp [h]
  · next h => simp [h]

theorem read_isSome (b : Blob) (off n : ℕ) : (b.read off n).isSome ↔ off + n ≤ b.size := by
  unfold read
  split
  · next h => simp [h]
  · next h => simp [h]

theorem uint_isSome (b : Blob) (off n : ℕ) : (b.uint off n).isSome ↔ off + n ≤ b.size := by
  rw [uint, Option.isSome_map]
  exact b.read_isSome off n

theorem uint_lt {b : Blob} {off n v : ℕ} (h : b.uint off n = some v) : v < 256 ^ n := by
  obtain ⟨xs, hxs, rfl⟩ := Option.map_eq_some_iff.mp h
  obtain ⟨hle, rfl⟩ := (b.read_eq_some_iff off n xs).mp hxs
  have hlen : ((b.bytes.drop off).take n).length = n := by
    rw [List.length_take, List.length_drop]
    unfold size at hle
    omega
  have hlt := ofLE_lt ((b.bytes.drop off).take n)
  rwa [hlen] at hlt

/-- `memcpy` of `xs` to `off`, where the blob has room for them. -/
def patch (b : Blob) (off : ℕ) (xs : List UInt8) : Option Blob :=
  if h : off + xs.length ≤ b.bytes.length then
    some ⟨b.bytes.take off ++ (xs ++ b.bytes.drop (off + xs.length)), by
      have hfits := b.fits
      simp only [List.length_append, List.length_take, List.length_drop]
      omega⟩
  else none

/-- The first `n` bytes. -/
def first (b : Blob) (n : ℕ) : Option Blob :=
  if n ≤ b.size then some ⟨b.bytes.take n, lt_of_le_of_lt (List.length_take_le' n b.bytes) b.fits⟩
  else none

theorem first_size (b : Blob) : b.first b.size = some b := by
  unfold first
  rw [if_pos le_rfl]
  congr 2
  exact List.take_length

section Patch

variable {b b' : Blob} {off : ℕ} {xs : List UInt8}

theorem patch_inside (h : b.patch off xs = some b') : off + xs.length ≤ b.size := by
  unfold patch at h
  split at h
  · next hle => exact hle
  · cases h

/-- There is room for a patch inside the blob. -/
theorem exists_patch (h : off + xs.length ≤ b.size) : ∃ b', b.patch off xs = some b' :=
  ⟨_, dif_pos h⟩

theorem patch_bytes (h : b.patch off xs = some b') :
    b'.bytes = b.bytes.take off ++ (xs ++ b.bytes.drop (off + xs.length)) := by
  unfold patch at h
  split at h
  · cases h
    rfl
  · cases h

@[simp] theorem patch_size (h : b.patch off xs = some b') : b'.size = b.size := by
  have hin : off + xs.length ≤ b.bytes.length := patch_inside h
  unfold size
  rw [patch_bytes h]
  simp only [List.length_append, List.length_take, List.length_drop]
  omega

/-- A byte outside the window of a patch stays. -/
theorem patch_outside (h : b.patch off xs = some b') {k : ℕ} (hk : k < off ∨ off + xs.length ≤ k) :
    b'.bytes[k]? = b.bytes[k]? := by
  have hin : off + xs.length ≤ b.bytes.length := patch_inside h
  rw [patch_bytes h]
  rcases hk with hk | hk
  · rw [List.getElem?_append_left (by rw [List.length_take]; omega), List.getElem?_take_of_lt hk]
  · have hlen : (b.bytes.take off).length = off := by
      rw [List.length_take]
      omega
    rw [List.getElem?_append_right (by omega), hlen, List.getElem?_append_right (by omega),
      List.getElem?_drop]
    congr 1
    omega

/-- A byte of the window is the patch's. -/
theorem patch_within (h : b.patch off xs = some b') {k : ℕ} (hk : k < xs.length) :
    b'.bytes[off + k]? = xs[k]? := by
  have hin : off + xs.length ≤ b.bytes.length := patch_inside h
  have hlen : (b.bytes.take off).length = off := by
    rw [List.length_take]
    omega
  rw [patch_bytes h, List.getElem?_append_right (by omega), hlen,
    List.getElem?_append_left (by omega)]
  congr 1
  omega

end Patch

/-- A read depends on the size of the blob and on the bytes it covers. -/
theorem read_congr {b b' : Blob} {off n : ℕ} (hsize : b'.size = b.size)
    (h : ∀ k, off ≤ k → k < off + n → b'.bytes[k]? = b.bytes[k]?) : b'.read off n = b.read off n := by
  unfold read
  rw [hsize]
  split
  · congr 1
    apply List.ext_getElem?
    intro k
    by_cases hk : k < n
    · rw [List.getElem?_take_of_lt hk, List.getElem?_take_of_lt hk, List.getElem?_drop,
        List.getElem?_drop]
      exact h (off + k) (by omega) (by omega)
    · rw [List.getElem?_take_eq_none (by omega), List.getElem?_take_eq_none (by omega)]
  · rfl

theorem uint_congr {b b' : Blob} {off n : ℕ} (hsize : b'.size = b.size)
    (h : ∀ k, off ≤ k → k < off + n → b'.bytes[k]? = b.bytes[k]?) : b'.uint off n = b.uint off n := by
  unfold uint
  rw [read_congr hsize h]

/-- The bytes of a read. -/
theorem read_getElem? {b : Blob} {off n : ℕ} {xs : List UInt8} (h : b.read off n = some xs) {k : ℕ}
    (hk : k < n) : xs[k]? = b.bytes[off + k]? := by
  obtain ⟨-, rfl⟩ := (b.read_eq_some_iff off n xs).mp h
  rw [List.getElem?_take_of_lt hk, List.getElem?_drop]

/-- A blob that has bytes somewhere reads them there. -/
theorem read_of_bytes {b : Blob} {off : ℕ} {xs : List UInt8} (hne : xs ≠ [])
    (h : ∀ k < xs.length, b.bytes[off + k]? = xs[k]?) : b.read off xs.length = some xs := by
  have hpos : 0 < xs.length := List.length_pos_iff.mpr hne
  have hlast := h (xs.length - 1) (by omega)
  rw [List.getElem?_eq_getElem (show xs.length - 1 < xs.length by omega)] at hlast
  have hlt := (List.getElem?_eq_some_iff.mp hlast).1
  rw [read_eq_some_iff]
  refine ⟨by unfold size; omega, ?_⟩
  apply List.ext_getElem?
  intro k
  by_cases hk : k < xs.length
  · rw [List.getElem?_take_of_lt hk, List.getElem?_drop, h k hk]
  · rw [List.getElem?_take_eq_none (by omega), List.getElem?_eq_none (by omega)]

/-- A number that is spelled out in the bytes. -/
theorem uint_of_bytes {b : Blob} {off n v : ℕ} {front back : List UInt8}
    (hb : b.bytes = front ++ (toLE n v ++ back)) (hoff : front.length = off) (hv : v < 256 ^ n) :
    b.uint off n = some v := by
  have hread : b.read off n = some (toLE n v) := by
    rw [read_eq_some_iff]
    have hlen := toLE_length n v
    constructor
    · unfold size
      rw [hb, List.length_append, List.length_append, hlen, hoff]
      omega
    · rw [hb, List.drop_left' hoff, List.take_left' hlen]
  unfold uint
  rw [hread, Option.map_some, ofLE_toLE hv]

theorem read_length {b : Blob} {off n : ℕ} {xs : List UInt8} (h : b.read off n = some xs) :
    xs.length = n := by
  obtain ⟨hle, rfl⟩ := (b.read_eq_some_iff off n xs).mp h
  have hle' : off + n ≤ b.bytes.length := hle
  rw [List.length_take, List.length_drop]
  omega

end Blob

/-! ## The container -/

def GRX_FATBIN_MAGIC : ℕ := 0x46585247

def GRX_FATBIN_VERSION : ℕ := 1

/-- A linked device binary, ready for the loader. -/
def GRX_IMAGE_VXBIN : ℕ := 0

/-- `grx_fatbin_header`. -/
structure GrxFatbinHeader where
  magic : ℕ
  version : ℕ
  numEntries : ℕ
  totalSize : ℕ
deriving DecidableEq, Repr

/-- `grx_fatbin_entry`. -/
structure GrxFatbinEntry where
  kind : ℕ
  xlen : ℕ
  requiredIsa : ℕ
  reserved : ℕ
  offset : ℕ
  size : ℕ
deriving DecidableEq, Repr

/-- `sizeof(grx_fatbin_header)`. -/
def headerBytes : ℕ := 16

/-- `sizeof(grx_fatbin_entry)`. -/
def entryBytes : ℕ := 32

namespace Blob

/-- The header at the start of a blob. -/
def header (b : Blob) : Option GrxFatbinHeader := do
  let magic ← b.uint 0 4
  let version ← b.uint 4 2
  let numEntries ← b.uint 6 2
  let totalSize ← b.uint 8 8
  return { magic, version, numEntries, totalSize }

/-- `entries[i]`. -/
def entry (b : Blob) (i : ℕ) : Option GrxFatbinEntry := do
  let at_ := headerBytes + entryBytes * i
  let kind ← b.uint at_ 4
  let xlen ← b.uint (at_ + 4) 4
  let requiredIsa ← b.uint (at_ + 8) 4
  let reserved ← b.uint (at_ + 12) 4
  let offset ← b.uint (at_ + 16) 8
  let size ← b.uint (at_ + 24) 8
  return { kind, xlen, requiredIsa, reserved, offset, size }

end Blob

namespace Blob

theorem header_isSome {b : Blob} (h : headerBytes ≤ b.size) : b.header.isSome := by
  have h' : 16 ≤ b.size := h
  obtain ⟨magic, hm⟩ := Option.isSome_iff_exists.mp ((b.uint_isSome 0 4).mpr (by omega))
  obtain ⟨version, hv⟩ := Option.isSome_iff_exists.mp ((b.uint_isSome 4 2).mpr (by omega))
  obtain ⟨numEntries, hn⟩ := Option.isSome_iff_exists.mp ((b.uint_isSome 6 2).mpr (by omega))
  obtain ⟨totalSize, ht⟩ := Option.isSome_iff_exists.mp ((b.uint_isSome 8 8).mpr (by omega))
  simp [header, hm, hv, hn, ht]

/-- The loop's reads of an entry are inside the blob if and only if the whole entry is: `offset` and
`size`, which it reads first, are the entry's last fields. -/
theorem entry_isSome (b : Blob) (i : ℕ) :
    (b.entry i).isSome ↔ headerBytes + entryBytes * (i + 1) ≤ b.size := by
  unfold headerBytes entryBytes
  constructor
  · intro h
    obtain ⟨e, he⟩ := Option.isSome_iff_exists.mp h
    simp only [entry, Option.bind_eq_bind, Option.bind_eq_some_iff] at he
    obtain ⟨_, -, _, -, _, -, _, -, _, -, size, hsize, -⟩ := he
    have hin := (b.uint_isSome _ _).mp (Option.isSome_of_eq_some hsize)
    unfold headerBytes entryBytes at hin
    omega
  · intro h
    have hat : ∀ k n : ℕ, k + n ≤ 32 →
        ∃ v, b.uint (headerBytes + entryBytes * i + k) n = some v := by
      intro k n hk
      apply Option.isSome_iff_exists.mp
      rw [b.uint_isSome]
      unfold headerBytes entryBytes
      omega
    obtain ⟨kind, h0⟩ := hat 0 4 (by omega)
    obtain ⟨xlen, h1⟩ := hat 4 4 (by omega)
    obtain ⟨requiredIsa, h2⟩ := hat 8 4 (by omega)
    obtain ⟨reserved, h3⟩ := hat 12 4 (by omega)
    obtain ⟨offset, h4⟩ := hat 16 8 (by omega)
    obtain ⟨size, h5⟩ := hat 24 8 (by omega)
    simp only [Nat.add_zero] at h0
    simp [entry, h0, h1, h2, h3, h4, h5]

theorem entry_eq_none_iff (b : Blob) (i : ℕ) :
    b.entry i = none ↔ b.size < headerBytes + entryBytes * (i + 1) := by
  rw [← Option.not_isSome_iff_eq_none, entry_isSome, Nat.not_le]

/-- The header depends on the header's bytes. -/
theorem header_congr {b b' : Blob} (hsize : b'.size = b.size)
    (h : ∀ k < headerBytes, b'.bytes[k]? = b.bytes[k]?) : b'.header = b.header := by
  have hfield : ∀ off n : ℕ, off + n ≤ 16 → b'.uint off n = b.uint off n := by
    intro off n hle
    apply uint_congr hsize
    intro k _ hk
    apply h
    unfold headerBytes
    omega
  unfold header
  rw [hfield 0 4 (by omega), hfield 4 2 (by omega), hfield 6 2 (by omega), hfield 8 8 (by omega)]

/-- An entry depends on its own bytes. -/
theorem entry_congr {b b' : Blob} {i : ℕ} (hsize : b'.size = b.size)
    (h : ∀ k < headerBytes + entryBytes * (i + 1), b'.bytes[k]? = b.bytes[k]?) :
    b'.entry i = b.entry i := by
  have hfield : ∀ off n : ℕ, off + n ≤ 32 →
      b'.uint (headerBytes + entryBytes * i + off) n =
        b.uint (headerBytes + entryBytes * i + off) n := by
    intro off n hle
    apply uint_congr hsize
    intro k _ hk
    apply h
    unfold headerBytes entryBytes at *
    omega
  have h0 := hfield 0 4 (by omega)
  rw [Nat.add_zero] at h0
  unfold entry
  simp only [h0, hfield 4 4 (by omega), hfield 8 4 (by omega), hfield 12 4 (by omega),
    hfield 16 8 (by omega), hfield 24 8 (by omega)]

theorem entry_lt {b : Blob} {i : ℕ} {e : GrxFatbinEntry} (h : b.entry i = some e) :
    e.requiredIsa < 2 ^ 32 ∧ e.offset < 2 ^ 64 ∧ e.size < 2 ^ 64 := by
  simp only [entry, Option.bind_eq_bind, Option.bind_eq_some_iff] at h
  obtain ⟨_, -, _, -, isa, hisa, _, -, offset, hoff, size, hsize, heq⟩ := h
  cases heq
  exact ⟨uint_lt hisa, uint_lt hoff, uint_lt hsize⟩

end Blob

/-- `__builtin_popcount`. -/
def popcount (v : ℕ) : ℕ :=
  (List.range 32).countP v.testBit

/-- An image inside a blob: where it starts, and its size. -/
structure Image where
  offset : ℕ
  size : ℕ
deriving DecidableEq, Repr

/-- The loop of `select_image` over the `left` entries from `i` on. -/
def selectLoop (b : Blob) (totalSize deviceExt : ℕ) :
    ℕ → ℕ → Option GrxFatbinEntry → ℤ → Option (Except GrxError (Option GrxFatbinEntry))
  | 0, _, best, _ => some (.ok best)
  | left + 1, i, best, bestScore =>
    match b.entry i with
    | none => none
    | some e =>
      if totalSize < add64 e.offset e.size then
        some (.error .invalidKernelImage)
      else if e.requiredIsa &&& deviceExt ≠ e.requiredIsa then
        selectLoop b totalSize deviceExt left (i + 1) best bestScore
      else if e.kind ≠ GRX_IMAGE_VXBIN then
        selectLoop b totalSize deviceExt left (i + 1) best bestScore
      else if bestScore < popcount e.requiredIsa then
        selectLoop b totalSize deviceExt left (i + 1) (some e) (popcount e.requiredIsa)
      else
        selectLoop b totalSize deviceExt left (i + 1) best bestScore

/-- The extension bits of what the device answers to `VX_CAPS_ISA_FLAGS`. -/
def deviceExt (isa : ℕ) : ℕ :=
  isa / 2 ^ 32 % 2 ^ 32

/-- `select_image`, of the blob and the device's answer to the query of its ISA flags. A run that
reads outside the blob has no result. -/
def selectImage (b : Blob) (isaFlags : Except VxError ℕ) : Option (Except GrxError Image) :=
  if b.size < headerBytes then
    -- not a container; the bytes are a bare device binary
    some (.ok ⟨0, b.size⟩)
  else
    match b.header with
    | none => none
    | some header =>
      if header.magic ≠ GRX_FATBIN_MAGIC then some (.ok ⟨0, b.size⟩)
      else if header.version ≠ GRX_FATBIN_VERSION then some (.error .invalidKernelImage)
      else if header.numEntries = 0 then some (.error .invalidKernelImage)
      else if b.size < header.totalSize then some (.error .invalidKernelImage)
      else
        match isaFlags with
        | .error _ => some (.error .invalidDevice)
        | .ok isa =>
          match selectLoop b header.totalSize (deviceExt isa) header.numEntries 0 none (-1) with
          | none => none
          | some (.error e) => some (.error e)
          | some (.ok none) => some (.error .invalidKernelImage)
          | some (.ok (some best)) => some (.ok ⟨best.offset, best.size⟩)

theorem selectLoop_congr {b b' : Blob} (totalSize ext : ℕ) (left i : ℕ)
    (best : Option GrxFatbinEntry) (bestScore : ℤ)
    (h : ∀ j, i ≤ j → j < i + left → b'.entry j = b.entry j) :
    selectLoop b' totalSize ext left i best bestScore =
      selectLoop b totalSize ext left i best bestScore := by
  induction left generalizing i best bestScore with
  | zero => rfl
  | succ left ih =>
    have hrest : ∀ best bestScore, selectLoop b' totalSize ext left (i + 1) best bestScore =
        selectLoop b totalSize ext left (i + 1) best bestScore := fun best bestScore =>
      ih (i + 1) best bestScore fun j hj hlt => h j (by omega) (by omega)
    simp only [selectLoop, h i le_rfl (by omega), hrest]

/-- The selection depends on the size of the blob, its header and its entry table. -/
theorem selectImage_congr {b b' : Blob} (isaFlags : Except VxError ℕ) (hsize : b'.size = b.size)
    (hheader : b'.header = b.header)
    (hentry : ∀ header, b.header = some header → ∀ j < header.numEntries, b'.entry j = b.entry j) :
    selectImage b' isaFlags = selectImage b isaFlags := by
  unfold selectImage
  rw [hsize, hheader]
  cases hb : b.header with
  | none => rfl
  | some header =>
    have hloop : ∀ ext, selectLoop b' header.totalSize ext header.numEntries 0 none (-1) =
        selectLoop b header.totalSize ext header.numEntries 0 none (-1) := fun ext =>
      selectLoop_congr header.totalSize ext header.numEntries 0 none (-1) fun j _ hj =>
        hentry header hb j (by omega)
    simp only [hloop]

end Grxcp.Runtime
