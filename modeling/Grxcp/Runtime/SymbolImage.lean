import Grxcp.Runtime.Symbols

/-!
# Where a symbol is in a fat binary

What the symbol copies compute of a container that is laid out as `grx_abi.h` has it (`WellFormed`):
`symbol_offset` finds the place of a symbol in the payload of the first entry, the patch of a place
there leaves the header, the entry table and the link addresses (`Kept`), and the image of a device
whose choice is the first entry has the patch in it.
-/

namespace Grxcp.Runtime.Symbols

/-! ## Containers -/

/-- Header, entry table, payloads: the payloads lie behind the table, inside the container, apart from
one another, and the one of a device binary begins with its two link addresses. -/
structure WellFormed (b : Blob) (header : GrxFatbinHeader) : Prop where
  header_eq : b.header = some header
  magic : header.magic = GRX_FATBIN_MAGIC
  version : header.version = GRX_FATBIN_VERSION
  entries : header.numEntries ≠ 0
  total : header.totalSize = b.size
  table : headerBytes + entryBytes * header.numEntries ≤ b.size
  payload : ∀ i < header.numEntries, ∀ e, b.entry i = some e →
    headerBytes + entryBytes * header.numEntries ≤ e.offset ∧ e.offset + e.size ≤ b.size
  apart : ∀ i < header.numEntries, ∀ j < header.numEntries, i ≠ j → ∀ e e', b.entry i = some e →
    b.entry j = some e' → e.offset + e.size ≤ e'.offset ∨ e'.offset + e'.size ≤ e.offset
  vxbin : ∀ i < header.numEntries, ∀ e, b.entry i = some e → e.kind = GRX_IMAGE_VXBIN → 16 ≤ e.size
  span : ∀ e lo hi, b.entry 0 = some e → b.uint e.offset 8 = some lo →
    b.uint (e.offset + 8) 8 = some hi → e.offset + 16 + (hi - lo) < 2 ^ 64

namespace WellFormed

variable {b : Blob} {header : GrxFatbinHeader}

theorem size_ge (h : WellFormed b header) : headerBytes ≤ b.size := by
  have htable := h.table
  omega

theorem accepts (h : WellFormed b header) : Accepts b header :=
  ⟨h.size_ge, h.header_eq, h.magic, h.version, h.entries, h.total.le⟩

theorem entry_some (h : WellFormed b header) {i : ℕ} (hi : i < header.numEntries) :
    ∃ e, b.entry i = some e := by
  apply Option.isSome_iff_exists.mp
  rw [Blob.entry_isSome]
  have htable := h.table
  unfold headerBytes entryBytes at *
  omega

theorem first_entry (h : WellFormed b header) : ∃ e, b.entry 0 = some e :=
  h.entry_some (Nat.pos_of_ne_zero h.entries)

/-- Every entry passes the bound check of `select_image`. -/
theorem comes (h : WellFormed b header) : Comes b header.totalSize header.numEntries := by
  intro i hi
  obtain ⟨e, he⟩ := h.entry_some hi
  refine ⟨e, he, ?_⟩
  have hin := (h.payload i hi e he).2
  have hlt := b.size_lt
  unfold GrxFatbinEntry.Passes add64
  rw [Nat.mod_eq_of_lt (by omega), h.total]
  exact hin

/-- The selection is that of the first of the most demanding entries that run. -/
theorem selectImage_best (h : WellFormed b header) {isa : ℕ} {e : GrxFatbinEntry}
    (hbest : Best b (deviceExt isa) header.numEntries (some e)) :
    selectImage b (.ok isa) = some (.ok ⟨e.offset, e.size⟩) := by
  rcases selectImage_cases h.accepts isa with
    ⟨k, hk, -, hnone, -⟩ | ⟨k, hk, e', -, he', hnot, -⟩ | ⟨-, hnone, -⟩ | ⟨-, e', hbest', heq⟩
  · obtain ⟨e', he', -⟩ := h.comes k hk
    rw [he'] at hnone
    cases hnone
  · obtain ⟨e'', he'', hpass⟩ := h.comes k hk
    rw [he'] at he''
    cases he''
    exact absurd hpass hnot
  · obtain ⟨⟨j, hj, he, -⟩, hruns, -⟩ := hbest
    exact absurd hruns (hnone j hj e he)
  · rw [heq, hbest.unique hbest']

end WellFormed

/-! ## The place of a symbol -/

variable {b b' : Blob} {header : GrxFatbinHeader}

/-- Where `symbol_offset` finds a symbol that does not wrap. -/
theorem symbolOffset_eq {vma size base : ℕ} (h : WellFormed b header) (hwrap : vma + size < 2 ^ 64)
    (heq : symbolOffset b vma size = some base) (hne : base ≠ npos) :
    ∃ e lo hi, b.entry 0 = some e ∧ e.kind = GRX_IMAGE_VXBIN ∧ b.uint e.offset 8 = some lo ∧
      b.uint (e.offset + 8) 8 = some hi ∧ lo ≤ vma ∧ vma + size ≤ hi ∧
      base = e.offset + 16 + (vma - lo) ∧ base + size ≤ b.size := by
  obtain ⟨e, he⟩ := h.first_entry
  have hin := (h.payload 0 (Nat.pos_of_ne_zero h.entries) e he).2
  have hlt := b.size_lt
  have hsize : ¬ b.size < headerBytes := Nat.not_lt.mpr h.size_ge
  have hmagic : ¬ (header.magic ≠ GRX_FATBIN_MAGIC ∨ header.numEntries = 0) := by
    rintro (hm | hn)
    · exact hm h.magic
    · exact h.entries hn
  unfold symbolOffset at heq
  simp only [if_neg hsize, h.header_eq, Option.bind_eq_bind, Option.bind_some, if_neg hmagic, he] at heq
  split at heq
  · cases heq
    exact absurd rfl hne
  next hkind =>
    have hvxbin : e.kind = GRX_IMAGE_VXBIN := by
      by_contra hno
      exact hkind (.inl hno)
    have h16 := h.vxbin 0 (Nat.pos_of_ne_zero h.entries) e he hvxbin
    rw [Option.bind_eq_some_iff] at heq
    obtain ⟨lo, hlo, heq⟩ := heq
    rw [Option.bind_eq_some_iff] at heq
    obtain ⟨hi, hhi, heq⟩ := heq
    have hspan := h.span e lo hi he hlo hhi
    have hsum : add64 vma size = vma + size := Nat.mod_eq_of_lt hwrap
    split at heq
    · cases heq
      exact absurd rfl hne
    next hrange =>
      rw [hsum] at hrange
      have hlow : lo ≤ vma := by omega
      have hhigh : vma + size ≤ hi := by omega
      have hsub : sub64 vma lo = vma - lo := by
        unfold sub64
        omega
      have h1 : add64 e.offset 16 = e.offset + 16 := Nat.mod_eq_of_lt (by omega)
      have h2 : add64 (e.offset + 16) (vma - lo) = e.offset + 16 + (vma - lo) :=
        Nat.mod_eq_of_lt (by omega)
      have h3 : add64 (e.offset + 16 + (vma - lo)) size = e.offset + 16 + (vma - lo) + size :=
        Nat.mod_eq_of_lt (by omega)
      rw [hsub, h1, h2, h3] at heq
      split at heq
      · cases heq
        exact absurd rfl hne
      next hend =>
        cases heq
        exact ⟨e, lo, hi, he, hvxbin, hlo, hhi, hlow, hhigh, rfl, by omega⟩

/-- What the copies keep of a container: all that the selection and `symbol_offset` read. -/
structure Kept (b b' : Blob) : Prop where
  size : b'.size = b.size
  header : b'.header = b.header
  entry : ∀ header, b.header = some header → ∀ i < header.numEntries, b'.entry i = b.entry i
  lo : ∀ e, b.entry 0 = some e → b'.uint e.offset 8 = b.uint e.offset 8
  hi : ∀ e, b.entry 0 = some e → b'.uint (e.offset + 8) 8 = b.uint (e.offset + 8) 8

namespace Kept

theorem refl (b : Blob) : Kept b b :=
  ⟨rfl, rfl, fun _ _ _ _ => rfl, fun _ _ => rfl, fun _ _ => rfl⟩

theorem first (h : Kept b b') (hwf : WellFormed b header) : b'.entry 0 = b.entry 0 :=
  h.entry header hwf.header_eq 0 (Nat.pos_of_ne_zero hwf.entries)

theorem trans {b'' : Blob} (h : Kept b b') (h' : Kept b' b'') (hwf : WellFormed b header) :
    Kept b b'' where
  size := h'.size.trans h.size
  header := h'.header.trans h.header
  entry := by
    intro header' hh i hi
    rw [h'.entry header' (by rw [h.header, hh]) i hi, h.entry header' hh i hi]
  lo := by
    intro e he
    rw [h'.lo e (by rw [h.first hwf, he]), h.lo e he]
  hi := by
    intro e he
    rw [h'.hi e (by rw [h.first hwf, he]), h.hi e he]

theorem wellFormed (h : Kept b b') (hwf : WellFormed b header) : WellFormed b' header where
  header_eq := h.header.trans hwf.header_eq
  magic := hwf.magic
  version := hwf.version
  entries := hwf.entries
  total := hwf.total.trans h.size.symm
  table := by
    rw [h.size]
    exact hwf.table
  payload := by
    intro i hi e he
    rw [h.entry header hwf.header_eq i hi] at he
    rw [h.size]
    exact hwf.payload i hi e he
  apart := by
    intro i hi j hj hij e e' he he'
    rw [h.entry header hwf.header_eq i hi] at he
    rw [h.entry header hwf.header_eq j hj] at he'
    exact hwf.apart i hi j hj hij e e' he he'
  vxbin := by
    intro i hi e he
    rw [h.entry header hwf.header_eq i hi] at he
    exact hwf.vxbin i hi e he
  span := by
    intro e lo hi he hlo hhi
    rw [h.first hwf] at he
    rw [h.lo e he] at hlo
    rw [h.hi e he] at hhi
    exact hwf.span e lo hi he hlo hhi

/-- The same entries run, so the selection is the same. -/
theorem selectImage (h : Kept b b') (isaFlags : Except VxError ℕ) :
    selectImage b' isaFlags = Runtime.selectImage b isaFlags :=
  selectImage_congr isaFlags h.size h.header h.entry

/-- A symbol stays where it is. -/
theorem symbolOffset (h : Kept b b') (hwf : WellFormed b header) (vma size : ℕ) :
    symbolOffset b' vma size = Symbols.symbolOffset b vma size := by
  obtain ⟨e, he⟩ := hwf.first_entry
  unfold Symbols.symbolOffset
  simp only [h.size, h.header, hwf.header_eq, Option.bind_eq_bind, Option.bind_some, h.first hwf, he,
    h.lo e he, h.hi e he]

/-- A patch behind the link addresses of the first entry. -/
theorem patch (hwf : WellFormed b header) {e : GrxFatbinEntry} (he : b.entry 0 = some e) {off : ℕ}
    {xs : List UInt8} (hoff : e.offset + 16 ≤ off) (hpatch : b.patch off xs = some b') :
    Kept b b' := by
  have hsize := Blob.patch_size hpatch
  have htable := (hwf.payload 0 (Nat.pos_of_ne_zero hwf.entries) e he).1
  have hbefore : ∀ k < e.offset + 16, b'.bytes[k]? = b.bytes[k]? := fun k hk =>
    Blob.patch_outside hpatch (.inl (by omega))
  refine ⟨hsize, ?_, ?_, ?_, ?_⟩
  · apply Blob.header_congr hsize
    intro k hk
    exact hbefore k (by omega)
  · intro header' hh i hi
    rw [hwf.header_eq] at hh
    cases hh
    apply Blob.entry_congr hsize
    intro k hk
    apply hbefore
    unfold headerBytes entryBytes at *
    omega
  · intro e' he'
    rw [he] at he'
    cases he'
    apply Blob.uint_congr hsize
    intro k _ hk
    exact hbefore k (by omega)
  · intro e' he'
    rw [he] at he'
    cases he'
    apply Blob.uint_congr hsize
    intro k _ hk
    exact hbefore k (by omega)

end Kept

/-! ## Images -/

/-- The byte that a `.vxbin` has for an address: `[min_vma][max_vma]` and the payload. -/
def imageAt (image : List UInt8) (address : ℕ) : Option UInt8 :=
  if address < ofLE (image.take 8) then none else image[16 + (address - ofLE (image.take 8))]?

/-- An image has the bytes `xs` from an address on. -/
def Holds (image : List UInt8) (address : ℕ) (xs : List UInt8) : Prop :=
  ∀ k < xs.length, imageAt image (address + k) = xs[k]?

/-- The first link address of an image that is read of a container. -/
theorem ofLE_take {image : List UInt8} {off size lo : ℕ} (himage : b.read off size = some image)
    (h8 : 8 ≤ size) (hlo : b.uint off 8 = some lo) : ofLE (image.take 8) = lo := by
  obtain ⟨-, rfl⟩ := (b.read_eq_some_iff off size image).mp himage
  obtain ⟨xs, hxs, rfl⟩ := Option.map_eq_some_iff.mp hlo
  obtain ⟨-, rfl⟩ := (b.read_eq_some_iff off 8 xs).mp hxs
  rw [List.take_take, Nat.min_eq_left h8]

/-- A byte of an image that is read of a container, by its address. -/
theorem imageAt_read {image : List UInt8} {off size lo address : ℕ}
    (himage : b.read off size = some image) (h8 : 8 ≤ size) (hlo : b.uint off 8 = some lo)
    (hle : lo ≤ address) (hlt : 16 + (address - lo) < size) :
    imageAt image address = b.bytes[off + 16 + (address - lo)]? := by
  unfold imageAt
  rw [ofLE_take himage h8 hlo, if_neg (Nat.not_lt.mpr hle), Blob.read_getElem? himage hlt]
  congr 1
  omega

end Grxcp.Runtime.Symbols
