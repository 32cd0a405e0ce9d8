import Grxcp.Grxcc.Lexer
import Grxcp.Runtime.SelectImage
import Grxcp.Runtime.Symbols

/-!
# The device image as a C array

`emit_fatbin_array` spells the container of one device binary as an array, which a program registers when it
starts. The array is read back as a compiler reads it (`spelled`), copied by `__grxRegisterFatBinary`, and read
by `select_image` and by `symbol_offset`, each with its own offsets.
-/

namespace Grxcp.Grxcc

open Grxcp.Runtime Grxcp.Runtime.Symbols

/-! ## The emitter -/

/-- The fields of a structure in memory, each with its bytes. -/
def fieldBytes (fields : List (ℕ × ℕ)) : List UInt8 :=
  fields.flatMap fun field => toLE field.1 field.2

/-- A `grx_fatbin_header` in memory. -/
def headerImage (h : GrxFatbinHeader) : List UInt8 :=
  fieldBytes [(4, h.magic), (2, h.version), (2, h.numEntries), (8, h.totalSize)]

/-- A `grx_fatbin_entry` in memory. -/
def entryImage (e : GrxFatbinEntry) : List UInt8 :=
  fieldBytes [(4, e.kind), (4, e.xlen), (4, e.requiredIsa), (4, e.reserved), (8, e.offset), (8, e.size)]

/-- The entry that the emitter writes. -/
def emittedEntry (vxbin : List UInt8) (requiredIsa : ℕ) : GrxFatbinEntry where
  kind := GRX_IMAGE_VXBIN
  xlen := 64
  requiredIsa := requiredIsa
  reserved := 0
  offset := headerBytes + entryBytes
  size := vxbin.length

/-- And the header. -/
def emittedHeader (vxbin : List UInt8) : GrxFatbinHeader where
  magic := GRX_FATBIN_MAGIC
  version := GRX_FATBIN_VERSION
  numEntries := 1
  totalSize := add64 (headerBytes + entryBytes) vxbin.length

/-- `blob`. -/
def fatbinBlob (vxbin : List UInt8) (requiredIsa : ℕ) : List UInt8 :=
  headerImage (emittedHeader vxbin) ++ (entryImage (emittedEntry vxbin requiredIsa) ++ vxbin)

/-- `"0x%02x,"`. -/
def byteText (b : UInt8) : List Char :=
  ['0', 'x', Nat.digitChar (b.toNat / 16), Nat.digitChar (b.toNat % 16), ',']

/-- The loop over the blob from its byte `i` on, sixteen to a line. -/
def bytesText (i : ℕ) : List UInt8 → List Char
  | [] => []
  | b :: blob => byteText b ++ ((if i % 16 = 15 then ['\n'] else []) ++ bytesText (i + 1) blob)

/-- `emit_fatbin_array`. -/
def emitFatbinArray (vxbin : List UInt8) (symbol : List Char) (requiredIsa : ℕ) : List Char :=
  "\n// ---- generated by grxcc: device image ----\n".toList ++
    ("alignas(8) static const unsigned char ".toList ++ (symbol ++ ("[] = ".toList ++ ('\x7b' :: '\n' ::
      (bytesText 0 (fatbinBlob vxbin requiredIsa) ++ "\n\x7d;\n".toList)))))

/-! ## The compiler -/

/-- How far an element of an initializer list has been read. -/
inductive Reading
  | ready
  | zero
  | marked
  | digits (v : ℕ)
  | spent

/-- The value of a hexadecimal digit. -/
def hexValue (c : Char) : Option ℕ :=
  if '0' ≤ c ∧ c ≤ '9' then some (c.toNat - '0'.toNat)
  else if 'a' ≤ c ∧ c ≤ 'f' then some (c.toNat - 'a'.toNat + 10)
  else if 'A' ≤ c ∧ c ≤ 'F' then some (c.toNat - 'A'.toNat + 10)
  else none

/-- The hexadecimal constants of an initializer list, up to the brace that closes it. A comma may follow the
last. -/
def elements : Reading → List Char → Option (List ℕ)
  | _, [] => none
  | .ready, c :: text =>
    if c = '0' then elements .zero text
    else if isSpace c then elements .ready text
    else if c = '\x7d' then some []
    else none
  | .zero, c :: text => if c = 'x' then elements .marked text else none
  | .marked, c :: text =>
    match hexValue c with
    | some d => elements (.digits d) text
    | none => none
  | .digits v, c :: text =>
    match hexValue c with
    | some d => elements (.digits (16 * v + d)) text
    | none =>
      if c = ',' then (elements .ready text).map (v :: ·)
      else if isSpace c then (elements .spent text).map (v :: ·)
      else if c = '\x7d' then some [v]
      else none
  | .spent, c :: text =>
    if c = ',' then elements .ready text
    else if isSpace c then elements .spent text
    else if c = '\x7d' then some []
    else none

/-- The bytes of an array of `unsigned char`, each of which a byte can hold. -/
def spelled (text : List Char) : Option (List UInt8) := do
  let brace ← find ['\x7b'] text
  let values ← elements .ready (text.drop (brace + 1))
  if values.all (· < 256) then return values.map UInt8.ofNat else none

/-! ## The array spells the container -/

theorem hexValue_digitChar {d : ℕ} (hd : d < 16) : hexValue (Nat.digitChar d) = some d := by
  have hall : ∀ d : Fin 16, hexValue (Nat.digitChar d) = some d.val := by decide
  exact hall ⟨d, hd⟩

/-- An element is read. -/
theorem elements_byte (b : UInt8) (text : List Char) :
    elements .ready (byteText b ++ text) = (elements .ready text).map (b.toNat :: ·) := by
  have hb := b.toNat_lt
  have hhigh := hexValue_digitChar (d := b.toNat / 16) (by omega)
  have hlow := hexValue_digitChar (d := b.toNat % 16) (by omega)
  have hvalue : 16 * (b.toNat / 16) + b.toNat % 16 = b.toNat := Nat.div_add_mod _ 16
  have hcomma : hexValue ',' = none := by decide
  show elements .marked (Nat.digitChar (b.toNat / 16) :: Nat.digitChar (b.toNat % 16) :: ',' :: text) = _
  rw [elements, hhigh]
  dsimp only
  rw [elements, hlow]
  dsimp only
  rw [elements, hcomma, hvalue]
  exact if_pos rfl

/-- All of them are. -/
theorem elements_bytes (i : ℕ) (blob : List UInt8) (text : List Char) :
    elements .ready (bytesText i blob ++ text) = (elements .ready text).map (blob.map UInt8.toNat ++ ·) := by
  induction blob generalizing i with
  | nil =>
    show elements .ready text = (elements .ready text).map id
    rw [Option.map_id, id]
  | cons b blob ih =>
    have hline : ∀ text, elements .ready ((if i % 16 = 15 then ['\n'] else []) ++ text) = elements .ready text := by
      intro text
      split_ifs
      · rfl
      · rfl
    rw [bytesText, List.append_assoc, List.append_assoc, elements_byte, hline, ih, Option.map_map]
    rfl

/-- What the array spells, whatever identifier it is named. -/
theorem spelled_emit (vxbin : List UInt8) {symbol : List Char} (hsymbol : ∀ c ∈ symbol, identChar c = true)
    (requiredIsa : ℕ) :
    spelled (emitFatbinArray vxbin symbol requiredIsa) = some (fatbinBlob vxbin requiredIsa) := by
  have hbytes : ∀ blob : List UInt8, (blob.map UInt8.toNat).all (· < 256) = true ∧
      (blob.map UInt8.toNat).map UInt8.ofNat = blob := by
    intro blob
    constructor
    · rw [List.all_eq_true]
      intro v hv
      obtain ⟨b, -, rfl⟩ := List.mem_map.mp hv
      exact decide_eq_true b.toNat_lt
    · rw [List.map_map]
      exact List.map_id'' (fun b => UInt8.ofNat_toNat) blob
  have hfront : '\x7b' ∉ "\n// ---- generated by grxcc: device image ----\n".toList ++
      ("alignas(8) static const unsigned char ".toList ++ (symbol ++ "[] = ".toList)) := by
    intro hmem
    rcases List.mem_append.mp hmem with hmem | hmem
    · exact absurd hmem (by decide)
    rcases List.mem_append.mp hmem with hmem | hmem
    · exact absurd hmem (by decide)
    rcases List.mem_append.mp hmem with hmem | hmem
    · exact absurd (hsymbol _ hmem) (by decide)
    · exact absurd hmem (by decide)
  have htext : emitFatbinArray vxbin symbol requiredIsa =
      ("\n// ---- generated by grxcc: device image ----\n".toList ++
        ("alignas(8) static const unsigned char ".toList ++ (symbol ++ "[] = ".toList))) ++ '\x7b' :: '\n' ::
          (bytesText 0 (fatbinBlob vxbin requiredIsa) ++ "\n\x7d;\n".toList) := by
    unfold emitFatbinArray
    rw [List.append_assoc, List.append_assoc, List.append_assoc]
  obtain ⟨hsmall, hvalues⟩ := hbytes (fatbinBlob vxbin requiredIsa)
  have hread : elements .ready ('\n' :: (bytesText 0 (fatbinBlob vxbin requiredIsa) ++ "\n\x7d;\n".toList)) =
      some ((fatbinBlob vxbin requiredIsa).map UInt8.toNat) := by
    show elements .ready (bytesText 0 (fatbinBlob vxbin requiredIsa) ++ "\n\x7d;\n".toList) = _
    rw [elements_bytes]
    show some (_ ++ []) = _
    rw [List.append_nil]
  unfold spelled
  rw [htext, find_char hfront]
  show (elements .ready (List.drop _ _)).bind _ = _
  rw [← List.drop_drop, List.drop_left, List.drop_one, List.tail_cons, hread]
  show (if _ then _ else _) = _
  rw [if_pos hsmall, hvalues]
  rfl

/-! ## The container is read back -/

section Container

variable {vxbin : List UInt8} {requiredIsa : ℕ} {array : Blob}

/-- An array of the container. -/
structure Holds (vxbin : List UInt8) (requiredIsa : ℕ) (array : Blob) : Prop where
  bytes : array.bytes = fatbinBlob vxbin requiredIsa
  isa : requiredIsa < 2 ^ 32
  room : headerBytes + entryBytes + vxbin.length < 2 ^ 63

theorem fieldBytes_length (fields : List (ℕ × ℕ)) : (fieldBytes fields).length = (fields.map Prod.fst).sum := by
  unfold fieldBytes
  rw [List.length_flatMap]
  congr 1
  apply List.map_congr_left
  exact fun field _ => toLE_length field.1 field.2

theorem headerImage_length (h : GrxFatbinHeader) : (headerImage h).length = headerBytes :=
  fieldBytes_length _

theorem entryImage_length (e : GrxFatbinEntry) : (entryImage e).length = entryBytes :=
  fieldBytes_length _

/-- A field is read where those before it end. -/
theorem uint_field {b : Blob} (front : List UInt8) (before : List (ℕ × ℕ)) {n v : ℕ} (after : List (ℕ × ℕ))
    {back : List UInt8} (hb : b.bytes = front ++ (fieldBytes (before ++ (n, v) :: after) ++ back))
    (hv : v < 256 ^ n) : b.uint (front.length + (before.map Prod.fst).sum) n = some v := by
  have hlen : (front ++ fieldBytes before).length = front.length + (before.map Prod.fst).sum := by
    rw [List.length_append, fieldBytes_length]
  have hsplit : b.bytes = (front ++ fieldBytes before) ++ (toLE n v ++ (fieldBytes after ++ back)) := by
    rw [hb]
    unfold fieldBytes
    rw [List.flatMap_append, List.flatMap_cons, List.append_assoc, List.append_assoc, List.append_assoc]
  exact Blob.uint_of_bytes hsplit hlen hv

/-- A header whose fields fit is read back. -/
theorem header_of_image {b : Blob} {h : GrxFatbinHeader} {back : List UInt8} (hb : b.bytes = headerImage h ++ back)
    (hmagic : h.magic < 256 ^ 4) (hversion : h.version < 256 ^ 2) (hentries : h.numEntries < 256 ^ 2)
    (htotal : h.totalSize < 256 ^ 8) : b.header = some h := by
  obtain ⟨magic, version, numEntries, totalSize⟩ := h
  have h0 : b.uint 0 4 = some magic :=
    uint_field [] [] [(2, version), (2, numEntries), (8, totalSize)] hb hmagic
  have h1 : b.uint 4 2 = some version :=
    uint_field [] [(4, magic)] [(2, numEntries), (8, totalSize)] hb hversion
  have h2 : b.uint 6 2 = some numEntries :=
    uint_field [] [(4, magic), (2, version)] [(8, totalSize)] hb hentries
  have h3 : b.uint 8 8 = some totalSize :=
    uint_field [] [(4, magic), (2, version), (2, numEntries)] [] hb htotal
  unfold Blob.header
  rw [h0, h1, h2, h3]
  rfl

/-- And an entry. -/
theorem entry_of_image {b : Blob} {i : ℕ} {e : GrxFatbinEntry} {front back : List UInt8}
    (hb : b.bytes = front ++ (entryImage e ++ back)) (hfront : front.length = headerBytes + entryBytes * i)
    (hkind : e.kind < 256 ^ 4) (hxlen : e.xlen < 256 ^ 4) (hisa : e.requiredIsa < 256 ^ 4)
    (hreserved : e.reserved < 256 ^ 4) (hoffset : e.offset < 256 ^ 8) (hsize : e.size < 256 ^ 8) :
    b.entry i = some e := by
  obtain ⟨kind, xlen, requiredIsa, reserved, offset, size⟩ := e
  have h0 : b.uint (front.length + 0) 4 = some kind :=
    uint_field front [] [(4, xlen), (4, requiredIsa), (4, reserved), (8, offset), (8, size)] hb hkind
  have h1 : b.uint (front.length + 4) 4 = some xlen :=
    uint_field front [(4, kind)] [(4, requiredIsa), (4, reserved), (8, offset), (8, size)] hb hxlen
  have h2 : b.uint (front.length + 8) 4 = some requiredIsa :=
    uint_field front [(4, kind), (4, xlen)] [(4, reserved), (8, offset), (8, size)] hb hisa
  have h3 : b.uint (front.length + 12) 4 = some reserved :=
    uint_field front [(4, kind), (4, xlen), (4, requiredIsa)] [(8, offset), (8, size)] hb hreserved
  have h4 : b.uint (front.length + 16) 8 = some offset :=
    uint_field front [(4, kind), (4, xlen), (4, requiredIsa), (4, reserved)] [(8, size)] hb hoffset
  have h5 : b.uint (front.length + 24) 8 = some size :=
    uint_field front [(4, kind), (4, xlen), (4, requiredIsa), (4, reserved), (8, offset)] [] hb hsize
  rw [hfront] at h0 h1 h2 h3 h4 h5
  rw [Nat.add_zero] at h0
  unfold Blob.entry
  dsimp only
  rw [h0, h1, h2, h3, h4, h5]
  rfl

theorem Holds.size (h : Holds vxbin requiredIsa array) :
    array.size = headerBytes + entryBytes + vxbin.length := by
  unfold Blob.size
  rw [h.bytes, fatbinBlob, List.length_append, List.length_append, headerImage_length, entryImage_length,
    Nat.add_assoc]

theorem Holds.total (h : Holds vxbin requiredIsa array) : (emittedHeader vxbin).totalSize = array.size := by
  have hroom := h.room
  rw [h.size]
  exact Nat.mod_eq_of_lt (by omega)

theorem Holds.header (h : Holds vxbin requiredIsa array) : array.header = some (emittedHeader vxbin) := by
  refine header_of_image h.bytes ?_ ?_ ?_ (Nat.mod_lt _ (by norm_num))
  · show GRX_FATBIN_MAGIC < 256 ^ 4
    decide
  · show GRX_FATBIN_VERSION < 256 ^ 2
    decide
  · show 1 < 256 ^ 2
    decide

theorem Holds.entry (h : Holds vxbin requiredIsa array) :
    array.entry 0 = some (emittedEntry vxbin requiredIsa) := by
  have hroom := h.room
  refine entry_of_image h.bytes (headerImage_length _) ?_ ?_ h.isa ?_ ?_ ?_
  · show GRX_IMAGE_VXBIN < 256 ^ 4
    decide
  · show 64 < 256 ^ 4
    decide
  · show 0 < 256 ^ 4
    decide
  · show headerBytes + entryBytes < 256 ^ 8
    decide
  · show vxbin.length < 256 ^ 8
    omega

/-- What is behind the table is the device binary. -/
theorem Holds.read (h : Holds vxbin requiredIsa array) {off n : ℕ} (hin : off + n ≤ vxbin.length) :
    array.read (headerBytes + entryBytes + off) n = some ((vxbin.drop off).take n) := by
  have hsize := h.size
  have hlen : (headerImage (emittedHeader vxbin) ++ entryImage (emittedEntry vxbin requiredIsa)).length =
      headerBytes + entryBytes := by
    rw [List.length_append, headerImage_length, entryImage_length]
  rw [Blob.read_eq_some_iff]
  refine ⟨by omega, ?_⟩
  rw [h.bytes, fatbinBlob, ← List.append_assoc, ← List.drop_drop, List.drop_left' hlen]

/-- The copy is the whole array. -/
theorem Holds.register (h : Holds vxbin requiredIsa array) :
    registerFatBinary (some array) = { shadow := array, image := .shadow } := by
  have hle : headerBytes ≤ array.size := by
    rw [h.size]
    omega
  have hmagic : (emittedHeader vxbin).magic = GRX_FATBIN_MAGIC := rfl
  unfold registerFatBinary
  dsimp only
  rw [h.header]
  dsimp only
  rw [if_pos hmagic, h.total, array.first_size]
  exact if_pos hle

/-- The device provides every extension of a word. -/
def Provides (deviceExt requiredIsa : ℕ) : Prop :=
  ∀ k, requiredIsa.testBit k → deviceExt.testBit k

/-- What is selected for a device. -/
theorem Holds.select (h : Holds vxbin requiredIsa array) (isa : ℕ) :
    selectImage array (.ok isa) = if requiredIsa &&& deviceExt isa = requiredIsa then
      some (.ok ⟨headerBytes + entryBytes, vxbin.length⟩) else some (.error .invalidKernelImage) := by
  have hle : headerBytes ≤ array.size := by
    rw [h.size]
    omega
  have hversion : ¬(emittedHeader vxbin).version ≠ GRX_FATBIN_VERSION := fun hne => hne rfl
  have hmagic : ¬(emittedHeader vxbin).magic ≠ GRX_FATBIN_MAGIC := fun hne => hne rfl
  have hone : (emittedHeader vxbin).numEntries = 1 := rfl
  have hpasses : ¬(emittedHeader vxbin).totalSize <
      add64 (emittedEntry vxbin requiredIsa).offset (emittedEntry vxbin requiredIsa).size := lt_irrefl _
  have hisa : (emittedEntry vxbin requiredIsa).requiredIsa = requiredIsa := rfl
  have hkind : ¬(emittedEntry vxbin requiredIsa).kind ≠ GRX_IMAGE_VXBIN := fun hne => hne rfl
  have hfirst : (-1 : ℤ) < popcount requiredIsa := by omega
  have hloop : selectLoop array (emittedHeader vxbin).totalSize (deviceExt isa) 1 0 none (-1) =
      some (.ok (if requiredIsa &&& deviceExt isa = requiredIsa then some (emittedEntry vxbin requiredIsa)
        else none)) := by
    rw [selectLoop, h.entry]
    dsimp only
    rw [if_neg hpasses, hisa, if_neg hkind, if_pos hfirst]
    by_cases hprovides : requiredIsa &&& deviceExt isa = requiredIsa
    · have hruns : ¬requiredIsa &&& deviceExt isa ≠ requiredIsa := fun hne => hne hprovides
      rw [if_neg hruns, if_pos hprovides]
      rfl
    · have hskips : requiredIsa &&& deviceExt isa ≠ requiredIsa := hprovides
      rw [if_pos hskips, if_neg hprovides]
      rfl
  unfold selectImage
  rw [if_neg (not_lt.mpr hle), h.header]
  dsimp only
  rw [if_neg hmagic, if_neg hversion, hone, if_neg Nat.one_ne_zero, if_neg (not_lt.mpr h.total.le), hloop]
  split_ifs
  · rfl
  · rfl

/-! ## Symbols -/

/-- `min_vma` of a device binary. -/
def minVma (vxbin : List UInt8) : ℕ :=
  ofLE (vxbin.take 8)

/-- `max_vma` of a device binary. -/
def maxVma (vxbin : List UInt8) : ℕ :=
  ofLE ((vxbin.drop 8).take 8)

/-- The range of a symbol lies in the addresses of the device binary, and its bytes in the payload. -/
structure InPayload (vxbin : List UInt8) (vma size : ℕ) : Prop where
  prefixed : 16 ≤ vxbin.length
  low : minVma vxbin ≤ vma
  high : vma + size ≤ maxVma vxbin
  bytes : 16 + (vma - minVma vxbin) + size ≤ vxbin.length

/-- What `symbol_offset` returns. -/
theorem Holds.offset_eq (h : Holds vxbin requiredIsa array) {vma size : ℕ} (hrange : vma + size < 2 ^ 64) :
    symbolOffset array vma size = some (
      if 16 ≤ vxbin.length ∧ minVma vxbin ≤ vma ∧ vma + size ≤ maxVma vxbin ∧
        add64 (add64 (headerBytes + entryBytes + 16) (vma - minVma vxbin)) size ≤ array.size then
          add64 (headerBytes + entryBytes + 16) (vma - minVma vxbin)
      else npos) := by
  have hsize := h.size
  have hroom := h.room
  have hle : ¬array.size < headerBytes := by omega
  have hok : ¬((emittedHeader vxbin).magic ≠ GRX_FATBIN_MAGIC ∨ (emittedHeader vxbin).numEntries = 0) := by
    rintro (hne | hzero)
    · exact hne rfl
    · exact Nat.one_ne_zero hzero
  have hoff : add64 (headerBytes + entryBytes) 16 = headerBytes + entryBytes + 16 := rfl
  have hoffset : (emittedEntry vxbin requiredIsa).offset = headerBytes + entryBytes := rfl
  unfold symbolOffset
  rw [if_neg hle, h.header]
  dsimp only [Option.bind_eq_bind, Option.bind_some]
  rw [if_neg hok, h.entry]
  dsimp only [Option.bind_some]
  rw [hoffset, hoff]
  by_cases hcovers : 16 ≤ vxbin.length
  · have hmin : array.uint (headerBytes + entryBytes) 8 = some (minVma vxbin) := by
      have hread := h.read (show 0 + 8 ≤ vxbin.length by omega)
      unfold Blob.uint
      rw [Nat.add_zero] at hread
      rw [hread]
      rfl
    have hmax : array.uint (headerBytes + entryBytes + 8) 8 = some (maxVma vxbin) := by
      have hread := h.read (show 8 + 8 ≤ vxbin.length by omega)
      unfold Blob.uint
      rw [hread]
      rfl
    have hpayload : ¬((emittedEntry vxbin requiredIsa).kind ≠ GRX_IMAGE_VXBIN ∨
        array.size < headerBytes + entryBytes + 16) := by
      rintro (hne | hshort)
      · exact hne rfl
      · omega
    have hend : add64 vma size = vma + size := Nat.mod_eq_of_lt hrange
    rw [if_neg hpayload, hmin]
    dsimp only [Option.bind_some]
    rw [hmax]
    dsimp only [Option.bind_some]
    rw [hend]
    by_cases hinside : minVma vxbin ≤ vma ∧ vma + size ≤ maxVma vxbin
    · have hbelow : ¬(vma < minVma vxbin ∨ maxVma vxbin < vma + size) := by omega
      have hsub : sub64 vma (minVma vxbin) = vma - minVma vxbin := by
        unfold sub64
        omega
      rw [if_neg hbelow, hsub]
      by_cases hfits : add64 (add64 (headerBytes + entryBytes + 16) (vma - minVma vxbin)) size ≤ array.size
      · rw [if_neg (not_lt.mpr hfits), if_pos ⟨hcovers, hinside.1, hinside.2, hfits⟩]
        rfl
      · rw [if_pos (not_le.mp hfits), if_neg fun hall => hfits hall.2.2.2]
        rfl
    · have hbeyond : vma < minVma vxbin ∨ maxVma vxbin < vma + size := by omega
      rw [if_pos hbeyond, if_neg fun hall => hinside ⟨hall.2.1, hall.2.2.1⟩]
      rfl
  · have hpayload : (emittedEntry vxbin requiredIsa).kind ≠ GRX_IMAGE_VXBIN ∨
        array.size < headerBytes + entryBytes + 16 := by omega
    rw [if_pos hpayload, if_neg fun hall => hcovers hall.1]
    rfl

/-- As many bytes are handed to the selection as the container's header says. -/
theorem Holds.handed (h : Holds vxbin requiredIsa array) :
    imageBlob (registerFatBinary (some array)) = some (.ok array) := by
  have hsize := h.size
  have htotal := h.total
  have hsound : ¬((emittedHeader vxbin).magic ≠ GRX_FATBIN_MAGIC ∨ (emittedHeader vxbin).totalSize = 0) := by
    rintro (hne | hzero)
    · exact hne rfl
    · unfold headerBytes at hsize
      omega
  rw [h.register]
  unfold imageBlob imageBlob.sized
  dsimp only
  rw [h.header]
  dsimp only
  rw [if_neg hsound, htotal, array.first_size]
  rfl

/-- The place of a symbol is computed beyond `2 ^ 64`: its range ends in the last 64 bytes that addresses reach,
counted from `min_vma`. Where it would be found at `(size_t)-1` itself, it is not found. -/
structure Wraps (vxbin : List UInt8) (vma size : ℕ) : Prop where
  prefixed : 16 ≤ vxbin.length
  low : minVma vxbin ≤ vma
  high : vma + size ≤ maxVma vxbin
  last : 2 ^ 64 - 64 ≤ vma - minVma vxbin + size
  found : vma - minVma vxbin ≠ 2 ^ 64 - 65

/-- The round trip of a device binary through an array: the array spells it, the copy is whole, a device gets
the binary if it provides what the binary requires, and a symbol is found if and only if its bytes are there,
and where they are. -/
structure RoundTrip (vxbin : List UInt8) (symbol : List Char) (requiredIsa vma size : ℕ) (array : Blob) : Prop where
  spells : spelled (emitFatbinArray vxbin symbol requiredIsa) = some array.bytes
  copied : (registerFatBinary (some array)).image = .shadow ∧ (registerFatBinary (some array)).shadow = array
  handed : imageBlob (registerFatBinary (some array)) = some (.ok array)
  selected : ∀ isa, Provides (deviceExt isa) requiredIsa → ∃ image, selectImage array (.ok isa) = some (.ok image) ∧
    array.read image.offset image.size = some vxbin
  refused : ∀ isa, ¬Provides (deviceExt isa) requiredIsa → ∃ e, selectImage array (.ok isa) = some (.error e)
  found : ∃ off, symbolOffset array vma size = some off ∧ (off ≠ npos ↔ InPayload vxbin vma size) ∧
    (InPayload vxbin vma size → off = headerBytes + entryBytes + (16 + (vma - minVma vxbin)))

/-- A symbol is looked for right, unless its place wraps. -/
theorem Holds.found_iff (h : Holds vxbin requiredIsa array) {vma size : ℕ} (hrange : vma + size < 2 ^ 64) :
    (∃ off, symbolOffset array vma size = some off ∧ (off ≠ npos ↔ InPayload vxbin vma size) ∧
      (InPayload vxbin vma size → off = headerBytes + entryBytes + (16 + (vma - minVma vxbin)))) ↔
      ¬Wraps vxbin vma size := by
  have hsize := h.size
  have hroom := h.room
  rw [h.offset_eq hrange]
  unfold headerBytes entryBytes at *
  by_cases hinside : 16 ≤ vxbin.length ∧ minVma vxbin ≤ vma ∧ vma + size ≤ maxVma vxbin
  · obtain ⟨hcovers, hlow, hhigh⟩ := hinside
    by_cases hlast : 2 ^ 64 - 64 ≤ vma - minVma vxbin + size
    · -- the sums wrap, and what they come to is before the payload or beyond all memory
      have hnot : ¬InPayload vxbin vma size := by
        intro hin
        have hbytes := hin.bytes
        omega
      have hfits : add64 (add64 (16 + 32 + 16) (vma - minVma vxbin)) size ≤ array.size := by
        unfold add64
        omega
      rw [if_pos ⟨hcovers, hlow, hhigh, hfits⟩]
      constructor
      · rintro ⟨off, hoff, hiff, -⟩ hwraps
        apply hnot
        rw [← hiff, ← Option.some.inj hoff]
        have hfound := hwraps.found
        unfold add64 npos
        omega
      · intro hwraps
        have hplace : vma - minVma vxbin = 2 ^ 64 - 65 := by
          by_contra hfound
          exact hwraps ⟨hcovers, hlow, hhigh, hlast, hfound⟩
        refine ⟨_, rfl, iff_of_false (not_not_intro ?_) hnot, fun hin => absurd hin hnot⟩
        rw [hplace]
        rfl
    · have hplace : add64 (16 + 32 + 16) (vma - minVma vxbin) = 64 + (vma - minVma vxbin) :=
        Nat.mod_eq_of_lt (by omega)
      have hend : add64 (64 + (vma - minVma vxbin)) size = 64 + (vma - minVma vxbin) + size :=
        Nat.mod_eq_of_lt (by omega)
      have hwraps : ¬Wraps vxbin vma size := fun hwraps => hlast hwraps.last
      rw [hplace, hend, iff_true_right hwraps]
      by_cases hbytes : 16 + (vma - minVma vxbin) + size ≤ vxbin.length
      · rw [if_pos ⟨hcovers, hlow, hhigh, by omega⟩]
        refine ⟨_, rfl, iff_of_true ?_ ⟨hcovers, hlow, hhigh, hbytes⟩, fun _ => by omega⟩
        unfold npos
        omega
      · have hnot : ¬InPayload vxbin vma size := fun hin => hbytes hin.bytes
        rw [if_neg (by omega)]
        exact ⟨_, rfl, iff_of_false (not_not_intro rfl) hnot, fun hin => absurd hin hnot⟩
  · have hnot : ¬InPayload vxbin vma size := fun hin => hinside ⟨hin.prefixed, hin.low, hin.high⟩
    have hwraps : ¬Wraps vxbin vma size := fun hwraps => hinside ⟨hwraps.prefixed, hwraps.low, hwraps.high⟩
    rw [iff_true_right hwraps, if_neg fun hall => hinside ⟨hall.1, hall.2.1, hall.2.2.1⟩]
    exact ⟨_, rfl, iff_of_false (not_not_intro rfl) hnot, fun hin => absurd hin hnot⟩

/-- What an array spells holds the container. -/
theorem holds_of_spells {symbol : List Char} (hsymbol : ∀ c ∈ symbol, identChar c = true)
    (hisa : requiredIsa < 2 ^ 32) (hroom : headerBytes + entryBytes + vxbin.length < 2 ^ 63)
    (hspells : spelled (emitFatbinArray vxbin symbol requiredIsa) = some array.bytes) :
    Holds vxbin requiredIsa array := by
  rw [spelled_emit vxbin hsymbol] at hspells
  exact ⟨(Option.some.inj hspells).symm, hisa, hroom⟩

/-- A device binary survives the round trip, unless a symbol's place wraps. -/
theorem roundTrip_iff (vxbin : List UInt8) (symbol : List Char) (requiredIsa vma size : ℕ)
    (hsymbol : ∀ c ∈ symbol, identChar c = true) (hisa : requiredIsa < 2 ^ 32)
    (hroom : headerBytes + entryBytes + vxbin.length < 2 ^ 63) (hrange : vma + size < 2 ^ 64) :
    (∃ array, RoundTrip vxbin symbol requiredIsa vma size array) ↔ ¬Wraps vxbin vma size := by
  constructor
  · rintro ⟨array, h⟩
    exact ((holds_of_spells hsymbol hisa hroom h.spells).found_iff hrange).mp h.found
  · intro hwraps
    have hlen : (fatbinBlob vxbin requiredIsa).length < 2 ^ 64 := by
      unfold fatbinBlob
      rw [List.length_append, List.length_append, headerImage_length, entryImage_length]
      omega
    have h : Holds vxbin requiredIsa ⟨fatbinBlob vxbin requiredIsa, hlen⟩ := ⟨rfl, hisa, hroom⟩
    refine ⟨_, spelled_emit vxbin hsymbol requiredIsa, ?_, h.handed, fun isa hprovides => ?_, fun isa hlacks => ?_, (h.found_iff hrange).mpr hwraps⟩
    · rw [h.register]
      exact ⟨rfl, rfl⟩
    · have hread := h.read (show 0 + vxbin.length ≤ vxbin.length from (Nat.zero_add _).le)
      rw [h.select, if_pos ((and_eq_left_iff ..).mpr hprovides)]
      rw [Nat.add_zero, List.drop_zero, List.take_length] at hread
      exact ⟨_, rfl, hread⟩
    · rw [h.select, if_neg (mt (and_eq_left_iff ..).mp hlacks)]
      exact ⟨_, rfl⟩

/-- The name that the array is given. -/
def fatbinData : List Char :=
  "__grx_fatbin_data".toList

/-- Eight bytes of data at the addresses from 0 to 8. -/
def eightBytes : List UInt8 :=
  toLE 8 0 ++ (toLE 8 8 ++ [1, 2, 3, 4, 5, 6, 7, 8])

theorem roundTrip_iff_eight : ((∀ c ∈ fatbinData, identChar c = true) ∧ 5 < 2 ^ 32 ∧
    headerBytes + entryBytes + eightBytes.length < 2 ^ 63 ∧ 4 + 4 < 2 ^ 64) ∧
    ∃ array, RoundTrip eightBytes fatbinData 5 4 4 array :=
  ⟨by decide, (roundTrip_iff eightBytes fatbinData 5 4 4 (by decide) (by decide) (by decide) (by decide)).mpr
    fun h => absurd h.last (by decide)⟩

/-- The addresses of all memory, and no data. -/
def allAddresses : List UInt8 :=
  toLE 8 0 ++ toLE 8 (2 ^ 64 - 1)

/-- Four bytes that it does not have are found, in the entry table before it. -/
theorem roundTrip_not : (¬∃ array, RoundTrip allAddresses fatbinData 0 (2 ^ 64 - 20) 4 array) ∧
    ∀ array : Blob, spelled (emitFatbinArray allAddresses fatbinData 0) = some array.bytes →
      symbolOffset array (2 ^ 64 - 20) 4 = some 44 := by
  have hholds : ∀ array : Blob, spelled (emitFatbinArray allAddresses fatbinData 0) = some array.bytes →
      Holds allAddresses 0 array :=
    fun array => holds_of_spells (by decide) (by decide) (by decide)
  constructor
  · rintro ⟨array, h⟩
    apply ((hholds array h.spells).found_iff (by decide)).mp h.found
    exact ⟨by decide, by decide, by decide, by decide, by decide⟩
  · intro array hspells
    have h := hholds array hspells
    rw [h.offset_eq (by decide), h.size]
    rfl

end Container

end Grxcp.Grxcc
