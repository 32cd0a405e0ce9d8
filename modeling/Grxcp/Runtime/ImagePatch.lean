import Grxcp.Runtime.SanitizeImage

/-!
# Reads and writes of the patch

Every offset of the walk over an ELF file comes from the file, and the checks add offset and size modulo
`2 ^ 64`. The walk stays inside the file where no sum wraps and every name that it compares ends in the
file (`elfSymbolValue_safe_iff`). The write to the image stays at the symbol where the span of the image
does not wrap (`patching_safe_iff`).
-/

namespace Grxcp.Runtime

open Scan

/-! ## Bytes -/

theorem field_lt (xs : List UInt8) (off n : ℕ) : field xs off n < 256 ^ n := by
  refine (ofLE_lt _).trans_le (Nat.pow_le_pow_right (by norm_num) ?_)
  exact List.length_take_le _ _

section Reads

variable {b : Blob} {off : ℕ}

theorem Blob.read_eq_none_iff {n : ℕ} : b.read off n = none ↔ b.size < off + n := by
  rw [← Option.not_isSome_iff_eq_none, b.read_isSome, Nat.not_le]

theorem Blob.elfSection_eq_none_iff : b.elfSection off = none ↔ b.size < off + elfSectionBytes := by
  unfold elfSection
  rw [Option.map_eq_none_iff, read_eq_none_iff]

theorem Blob.elfSym_eq_none_iff : b.elfSym off = none ↔ b.size < off + elfSymBytes := by
  unfold elfSym
  rw [Option.map_eq_none_iff, read_eq_none_iff]

theorem Blob.elfHeader_lt {eh : Elf64Header} (h : b.elfHeader = some eh) :
    eh.shoff < 2 ^ 64 ∧ eh.shnum < 2 ^ 16 := by
  obtain ⟨xs, -, rfl⟩ := Option.map_eq_some_iff.mp h
  exact ⟨field_lt xs 40 8, field_lt xs 60 2⟩

theorem Blob.elfSection_lt {sh : Elf64Section} (h : b.elfSection off = some sh) :
    sh.offset < 2 ^ 64 ∧ sh.size < 2 ^ 64 := by
  obtain ⟨xs, -, rfl⟩ := Option.map_eq_some_iff.mp h
  exact ⟨field_lt xs 24 8, field_lt xs 32 8⟩

theorem Blob.elfSym_lt {sym : Elf64Sym} (h : b.elfSym off = some sym) : sym.value < 2 ^ 64 := by
  obtain ⟨xs, -, rfl⟩ := Option.map_eq_some_iff.mp h
  exact field_lt xs 8 8

/-- The comparison of a name comes to an end in the file: at a byte that is there and differs from the
wanted name's, or follows them all. -/
def NameEnds (b : Blob) (off : ℕ) (want : List UInt8) : Prop :=
  ∃ j ≤ want.length, off + j < b.size ∧ (j = want.length ∨ b.bytes[off + j]? ≠ want[j]?)

/-- A comparison is stuck where it does not. -/
theorem strcmpAt_ne_none_iff (want : List UInt8) : b.strcmpAt off want ≠ none ↔ NameEnds b off want := by
  induction want generalizing off with
  | nil =>
    unfold Blob.strcmpAt
    rw [ne_eq, Option.map_eq_none_iff, List.getElem?_eq_none_iff, not_le]
    constructor
    · exact fun h => ⟨0, le_rfl, h, .inl rfl⟩
    · rintro ⟨j, -, h, -⟩
      exact (Nat.le_add_right off j).trans_lt h
  | cons w ws ih =>
    unfold Blob.strcmpAt
    split
    next hnone =>
      rw [List.getElem?_eq_none_iff] at hnone
      constructor
      · exact fun h => absurd rfl h
      · rintro ⟨j, -, h, -⟩
        exact absurd h (not_lt.mpr (hnone.trans (Nat.le_add_right off j)))
    next x hx =>
      have hlt : off < b.size := (List.getElem?_eq_some_iff.mp hx).1
      split
      next heq =>
        subst heq
        rw [ih]
        constructor
        · rintro ⟨j, hj, hin, hends⟩
          refine ⟨j + 1, Nat.succ_le_succ hj, by omega, ?_⟩
          rw [Nat.add_assoc, Nat.add_comm 1] at hends
          exact hends.imp (congrArg Nat.succ) id
        · rintro ⟨j, hj, hin, hends⟩
          cases j with
          | zero =>
            rcases hends with hzero | hne
            · cases hzero
            · exact absurd hx hne
          | succ j =>
            refine ⟨j, Nat.le_of_succ_le_succ hj, by omega, ?_⟩
            rw [Nat.add_assoc, Nat.add_comm 1]
            exact hends.imp Nat.succ_injective.eq_iff.mp id
      next hne =>
        constructor
        · intro _
          refine ⟨0, Nat.zero_le _, hlt, .inr ?_⟩
          rw [Nat.add_zero, hx]
          exact fun h => hne (Option.some_inj.mp h)
        · exact fun _ => nofun

end Reads

/-! ## The walk -/

section Walk

variable {elf : Blob} {eh : Elf64Header} {sh str : Elf64Section} {want : List UInt8} {i k v : ℕ}

/-- The symbol is read in the file, and so is its name: the table does not wrap, or the symbol is in the
file all the same. -/
structure SymbolServed (elf : Blob) (sh str : Elf64Section) (want : List UInt8) (k : ℕ) : Prop where
  inside : sh.offset + sh.size < 2 ^ 64 ∨ sh.offset + (k + 1) * elfSymBytes ≤ elf.size
  name : ∀ sym, elf.elfSym (sh.offset + k * elfSymBytes) = some sym → sym.name ≠ 0 →
    sym.name < str.size → NameEnds elf (str.offset + sym.name) want

/-- The section is a symbol table with its names, and passes the checks. -/
structure SymtabAt (elf : Blob) (eh : Elf64Header) (i : ℕ) (sh str : Elf64Section) : Prop where
  header : elf.elfSection (eh.shoff + i * eh.shentsize) = some sh
  type : sh.type = SHT_SYMTAB
  entsize : sh.entsize = elfSymBytes
  link : sh.link < eh.shnum
  names : elf.elfSection (eh.shoff + sh.link * eh.shentsize) = some str
  fits : add64 sh.offset sh.size ≤ elf.size
  namesFit : add64 str.offset str.size ≤ elf.size

/-- The section's header is read in the file, and the symbols of a table up to the first of the name
are: the section table does not wrap, or the header is in the file all the same. -/
structure SectionServed (elf : Blob) (eh : Elf64Header) (want : List UInt8) (i : ℕ) : Prop where
  inside : eh.shoff + eh.shnum * eh.shentsize < 2 ^ 64 ∨
    eh.shoff + (i + 1) * eh.shentsize ≤ elf.size
  link : ∀ sh, elf.elfSection (eh.shoff + i * eh.shentsize) = some sh → sh.type = SHT_SYMTAB →
    sh.entsize = elfSymBytes → sh.link < eh.shnum →
    eh.shoff + eh.shnum * eh.shentsize < 2 ^ 64 ∨
      eh.shoff + (sh.link + 1) * eh.shentsize ≤ elf.size
  symbols : ∀ sh str, SymtabAt elf eh i sh str → ∀ k < sh.size / elfSymBytes,
    Reaches (elfSymbolAt elf sh str want) k → SymbolServed elf sh str want k

/-- The sections up to the first with a symbol of the name are. -/
def ElfServed (elf : Blob) (want : List UInt8) : Prop :=
  ∀ eh, elf.elfHeader = some eh → eh.Accepted elf.size → ∀ i < eh.shnum,
    Reaches (elfSectionAt elf eh want) i → SectionServed elf eh want i

/-- The value of the first symbol of the name. -/
def SymbolIs (elf : Blob) (want : List UInt8) (v : ℕ) : Prop :=
  ∃ eh, elf.elfHeader = some eh ∧ eh.Accepted elf.size ∧ ∃ i < eh.shnum,
    Reaches (elfSectionAt elf eh want) i ∧ ∃ sh str, SymtabAt elf eh i sh str ∧
      ∃ k < sh.size / elfSymBytes, Reaches (elfSymbolAt elf sh str want) k ∧
        ∃ sym, elf.elfSym (sh.offset + k * elfSymBytes) = some sym ∧ sym.name ≠ 0 ∧
          sym.name < str.size ∧ elf.strcmpAt (str.offset + sym.name) want = some true ∧ v = sym.value

/-- A record inside a range that ends in the file, as the code adds, is in the file if the sum does not
wrap. -/
theorem inside_iff {offset size record j total : ℕ} (hsum : add64 offset size ≤ total)
    (hj : (j + 1) * record ≤ size) : offset + j * record + record ≤ total ↔
      offset + size < 2 ^ 64 ∨ offset + (j + 1) * record ≤ total := by
  have hmul : (j + 1) * record = j * record + record := Nat.succ_mul j record
  unfold add64 at hsum
  constructor
  · exact fun h => .inr (by omega)
  · rintro (hlt | h)
    · rw [Nat.mod_eq_of_lt hlt] at hsum
      omega
    · omega

theorem elfSymbolAt_ne_stuck_iff (hfits : add64 sh.offset sh.size ≤ elf.size)
    (hk : k < sh.size / elfSymBytes) :
    elfSymbolAt elf sh str want k ≠ .stuck ↔ SymbolServed elf sh str want k := by
  have hrecord : (k + 1) * elfSymBytes ≤ sh.size :=
    (Nat.mul_le_mul_right _ hk).trans (Nat.div_mul_le_self _ _)
  have hinside := inside_iff hfits hrecord
  unfold elfSymbolAt Result.ofOption
  split
  next hnone =>
    rw [Blob.elfSym_eq_none_iff] at hnone
    constructor
    · exact fun h => absurd rfl h
    · intro h
      exact absurd (hinside.mpr h.inside) (not_le.mpr hnone)
  next sym hsym =>
    have hin : sh.offset + k * elfSymBytes + elfSymBytes ≤ elf.size := by
      by_contra hnot
      rw [Blob.elfSym_eq_none_iff.mpr (not_le.mp hnot)] at hsym
      cases hsym
    dsimp only
    split
    next hskip =>
      constructor
      · intro _
        refine ⟨hinside.mp hin, fun sym' hsym' hne hlt => ?_⟩
        rw [hsym] at hsym'
        cases hsym'
        rcases hskip with hzero | hge
        · exact absurd hzero hne
        · exact absurd hlt (not_lt.mpr hge)
      · exact fun _ => nofun
    next hname =>
      push Not at hname
      have hcompare : elf.strcmpAt (str.offset + sym.name) want ≠ none ↔
          SymbolServed elf sh str want k := by
        rw [strcmpAt_ne_none_iff]
        constructor
        · intro hends
          refine ⟨hinside.mp hin, fun sym' hsym' _ _ => ?_⟩
          rw [hsym] at hsym'
          cases hsym'
          exact hends
        · exact fun h => h.name sym hsym hname.1 hname.2
      rw [← hcompare]
      split
      next hnone => exact ⟨fun h => absurd rfl h, fun h => absurd hnone h⟩
      next equal hequal =>
        rw [hequal]
        constructor
        · exact fun _ => nofun
        · intro _
          split <;> exact nofun

theorem elfSymbolAt_hit_iff : elfSymbolAt elf sh str want k = .hit v ↔
    ∃ sym, elf.elfSym (sh.offset + k * elfSymBytes) = some sym ∧ sym.name ≠ 0 ∧ sym.name < str.size ∧
      elf.strcmpAt (str.offset + sym.name) want = some true ∧ v = sym.value := by
  unfold elfSymbolAt Result.ofOption
  cases hsym : elf.elfSym (sh.offset + k * elfSymBytes) with
  | none => simp
  | some sym =>
    dsimp only
    by_cases hskip : sym.name = 0 ∨ str.size ≤ sym.name
    · rw [if_pos hskip]
      constructor
      · exact nofun
      · rintro ⟨sym', hsym', hne, hlt, -⟩
        cases hsym'
        rcases hskip with hzero | hge
        · exact absurd hzero hne
        · exact absurd hlt (not_lt.mpr hge)
    · rw [if_neg hskip]
      push Not at hskip
      rcases hcmp : elf.strcmpAt (str.offset + sym.name) want with _ | _ | _
      · simp [hcmp]
      · simp [hcmp]
      · simp [hcmp, hskip, eq_comm]

/-- A section that passes the checks is the scan of its symbols. -/
theorem SymtabAt.elfSectionAt_eq (h : SymtabAt elf eh i sh str) :
    elfSectionAt elf eh want i = scan (elfSymbolAt elf sh str want) (sh.size / elfSymBytes) := by
  unfold elfSectionAt Result.ofOption
  rw [h.header]
  dsimp only
  rw [if_neg (not_not.mpr h.type), if_neg (not_or.mpr ⟨not_not.mpr h.entsize, not_le.mpr h.link⟩),
    h.names]
  exact if_neg (not_or.mpr ⟨not_lt.mpr h.fits, not_lt.mpr h.namesFit⟩)

/-- What a section does: it is stuck at its header or at that of its names, it is passed over, or its
symbols are scanned. -/
theorem elfSectionAt_cases (elf : Blob) (eh : Elf64Header) (want : List UInt8) (i : ℕ) :
    (elf.elfSection (eh.shoff + i * eh.shentsize) = none ∧ elfSectionAt elf eh want i = .stuck) ∨
      (∃ sh, elf.elfSection (eh.shoff + i * eh.shentsize) = some sh ∧ sh.type = SHT_SYMTAB ∧
        sh.entsize = elfSymBytes ∧ sh.link < eh.shnum ∧
        elf.elfSection (eh.shoff + sh.link * eh.shentsize) = none ∧
        elfSectionAt elf eh want i = .stuck) ∨
      ((∃ sh, elf.elfSection (eh.shoff + i * eh.shentsize) = some sh ∧ (sh.type = SHT_SYMTAB →
        sh.entsize = elfSymBytes → sh.link < eh.shnum →
          ∃ str, elf.elfSection (eh.shoff + sh.link * eh.shentsize) = some str)) ∧
        (∀ sh str, ¬ SymtabAt elf eh i sh str) ∧ elfSectionAt elf eh want i = .miss) ∨
      ∃ sh str, SymtabAt elf eh i sh str := by
  unfold elfSectionAt Result.ofOption
  rcases hsh : elf.elfSection (eh.shoff + i * eh.shentsize) with _ | sh
  · exact .inl ⟨rfl, rfl⟩
  dsimp only
  by_cases htype : sh.type = SHT_SYMTAB
  swap
  · rw [if_pos htype]
    refine .inr (.inr (.inl ⟨⟨sh, rfl, fun h => absurd h htype⟩, fun sh' str h => ?_, rfl⟩))
    have hsame := h.header
    rw [hsh] at hsame
    cases hsame
    exact htype h.type
  rw [if_neg (not_not.mpr htype)]
  by_cases hentry : sh.entsize = elfSymBytes ∧ sh.link < eh.shnum
  swap
  · rw [if_pos (by rw [← not_lt]; tauto)]
    refine .inr (.inr (.inl ⟨⟨sh, rfl, fun _ h h' => absurd ⟨h, h'⟩ hentry⟩, fun sh' str h => ?_, rfl⟩))
    have hsame := h.header
    rw [hsh] at hsame
    cases hsame
    exact hentry ⟨h.entsize, h.link⟩
  obtain ⟨hentsize, hlink⟩ := hentry
  rw [if_neg (not_or.mpr ⟨not_not.mpr hentsize, not_le.mpr hlink⟩)]
  rcases hstr : elf.elfSection (eh.shoff + sh.link * eh.shentsize) with _ | str
  · exact .inr (.inl ⟨sh, rfl, htype, hentsize, hlink, hstr, rfl⟩)
  dsimp only
  by_cases hfits : add64 sh.offset sh.size ≤ elf.size ∧ add64 str.offset str.size ≤ elf.size
  · exact .inr (.inr (.inr ⟨sh, str, hsh, htype, hentsize, hlink, hstr, hfits.1, hfits.2⟩))
  · rw [if_pos (by rw [← not_le, ← not_le]; tauto)]
    refine .inr (.inr (.inl ⟨⟨sh, rfl, fun _ _ _ => ⟨str, hstr⟩⟩, fun sh' str' h => ?_, rfl⟩))
    have hsame := h.header
    rw [hsh] at hsame
    cases hsame
    have hnames := h.names
    rw [hstr] at hnames
    cases hnames
    exact hfits ⟨h.fits, h.namesFit⟩

theorem elfSectionAt_ne_stuck_iff (heh : eh.Accepted elf.size) (hi : i < eh.shnum) :
    elfSectionAt elf eh want i ≠ .stuck ↔ SectionServed elf eh want i := by
  obtain ⟨-, -, -, hentsize, hsum⟩ := heh
  have hinside : ∀ j < eh.shnum, (elf.elfSection (eh.shoff + j * eh.shentsize) ≠ none ↔
      eh.shoff + eh.shnum * eh.shentsize < 2 ^ 64 ∨ eh.shoff + (j + 1) * eh.shentsize ≤ elf.size) := by
    intro j hj
    rw [ne_eq, Blob.elfSection_eq_none_iff, not_lt, ← hentsize]
    exact inside_iff hsum (Nat.mul_le_mul_right _ hj)
  rcases elfSectionAt_cases elf eh want i with ⟨hnone, hstuck⟩ |
    ⟨sh, hsh, htype, hentry, hlink, hnone, hstuck⟩ | ⟨⟨sh, hsh, hnames⟩, hnot, hmiss⟩ | ⟨sh, str, hat⟩
  · constructor
    · exact fun h => absurd hstuck h
    · exact fun h => absurd hnone ((hinside i hi).mpr h.inside)
  · constructor
    · exact fun h => absurd hstuck h
    · exact fun h => absurd hnone ((hinside _ hlink).mpr (h.link sh hsh htype hentry hlink))
  · rw [hmiss]
    constructor
    · intro _
      refine ⟨(hinside i hi).mp (by rw [hsh]; nofun), fun sh' hsh' htype hentry hlink => ?_,
        fun sh' str h => absurd h (hnot sh' str)⟩
      rw [hsh] at hsh'
      cases hsh'
      obtain ⟨str, hstr⟩ := hnames htype hentry hlink
      exact (hinside _ hlink).mp (by rw [hstr]; nofun)
    · exact fun _ => nofun
  · rw [hat.elfSectionAt_eq, scan_ne_stuck_iff]
    constructor
    · intro h
      refine ⟨(hinside i hi).mp (by rw [hat.header]; nofun), fun sh' hsh' _ _ hlink => ?_,
        fun sh' str' hat' k hk hreach => ?_⟩
      · rw [hat.header] at hsh'
        cases hsh'
        exact (hinside _ hlink).mp (by rw [hat.names]; nofun)
      · have hsame := hat'.header
        rw [hat.header] at hsame
        cases hsame
        have hnames := hat'.names
        rw [hat.names] at hnames
        cases hnames
        exact (elfSymbolAt_ne_stuck_iff hat.fits hk).mp (h k hk hreach)
    · intro h k hk hreach
      exact (elfSymbolAt_ne_stuck_iff hat.fits hk).mpr (h.symbols sh str hat k hk hreach)

/-- The walk over a file stays in the file exactly where what it gets to is served. -/
theorem elfSymbolValue_safe_iff (elf : Blob) (want : List UInt8) :
    elfSymbolValue elf want ≠ .stuck ↔ ElfServed elf want := by
  unfold elfSymbolValue ElfServed Result.ofOption
  by_cases hsmall : elf.size < elfHeaderBytes
  · rw [if_pos hsmall]
    constructor
    · intro _ eh heh
      have hnone : elf.elfHeader = none := by
        unfold Blob.elfHeader
        rw [Option.map_eq_none_iff, Blob.read_eq_none_iff, Nat.zero_add]
        exact hsmall
      rw [hnone] at heh
      cases heh
    · exact fun _ => nofun
  rw [if_neg hsmall]
  cases heh : elf.elfHeader with
  | none =>
    unfold Blob.elfHeader at heh
    rw [Option.map_eq_none_iff, Blob.read_eq_none_iff, Nat.zero_add] at heh
    exact absurd heh hsmall
  | some eh =>
    dsimp only
    split
    next haccepted =>
      rw [scan_ne_stuck_iff]
      constructor
      · intro h eh' heh' _ i hi hreach
        cases heh'
        exact (elfSectionAt_ne_stuck_iff haccepted hi).mp (h i hi hreach)
      · intro h i hi hreach
        exact (elfSectionAt_ne_stuck_iff haccepted hi).mpr (h eh rfl haccepted i hi hreach)
    next hnot =>
      constructor
      · intro _ eh' heh' haccepted
        cases heh'
        exact absurd haccepted hnot
      · exact fun _ => nofun

theorem elfSectionAt_hit_iff : elfSectionAt elf eh want i = .hit v ↔
    ∃ sh str, SymtabAt elf eh i sh str ∧ ∃ k < sh.size / elfSymBytes,
      Reaches (elfSymbolAt elf sh str want) k ∧ elfSymbolAt elf sh str want k = .hit v := by
  constructor
  · intro h
    rcases elfSectionAt_cases elf eh want i with ⟨-, hstuck⟩ | ⟨sh, -, -, -, -, -, hstuck⟩ |
      ⟨-, -, hmiss⟩ | ⟨sh, str, hat⟩
    · rw [hstuck] at h
      cases h
    · rw [hstuck] at h
      cases h
    · rw [hmiss] at h
      cases h
    · rw [hat.elfSectionAt_eq, scan_eq_hit_iff] at h
      exact ⟨sh, str, hat, h⟩
  · rintro ⟨sh, str, hat, h⟩
    rw [hat.elfSectionAt_eq, scan_eq_hit_iff]
    exact h

/-- What the walk finds is the first symbol of the name. -/
theorem elfSymbolValue_hit_iff : elfSymbolValue elf want = .hit v ↔ SymbolIs elf want v := by
  unfold elfSymbolValue SymbolIs Result.ofOption
  by_cases hsmall : elf.size < elfHeaderBytes
  · rw [if_pos hsmall]
    constructor
    · exact nofun
    · rintro ⟨eh, heh, -⟩
      have hnone : elf.elfHeader = none := by
        unfold Blob.elfHeader
        rw [Option.map_eq_none_iff, Blob.read_eq_none_iff, Nat.zero_add]
        exact hsmall
      rw [hnone] at heh
      cases heh
  rw [if_neg hsmall]
  cases heh : elf.elfHeader with
  | none =>
    constructor
    · exact nofun
    · rintro ⟨eh, heh', -⟩
      cases heh'
  | some eh =>
    dsimp only
    simp only [← elfSymbolAt_hit_iff, ← elfSectionAt_hit_iff]
    split
    next haccepted =>
      rw [scan_eq_hit_iff]
      constructor
      · exact fun h => ⟨eh, rfl, haccepted, h⟩
      · rintro ⟨eh', heh', -, h⟩
        cases heh'
        exact h
    next hnot =>
      constructor
      · exact nofun
      · rintro ⟨eh', heh', haccepted, -⟩
        cases heh'
        exact absurd haccepted hnot

theorem SymbolIs.lt (h : SymbolIs elf want v) : v < 2 ^ 64 := by
  obtain ⟨eh, -, -, i, -, -, sh, str, -, k, -, -, sym, hsym, -, -, -, rfl⟩ := h
  exact Blob.elfSym_lt hsym

end Walk

/-! ## The patch -/

/-- No run reads or writes outside the file or the image, and when a run succeeds the image differs, if at
all, in the eight bytes at the offset of the anchor. -/
structure PatchingSafe (elf image : Blob) : Prop where
  symbol : elfSymbolValue elf anchorName ≠ .stuck
  inside : ∀ (enabled : Bool) (r : PatchReplies),
    sanitizePatchImage enabled (some elf) image r ≠ none
  patched : ∀ (enabled : Bool) (r : PatchReplies) (image' : Blob),
    sanitizePatchImage enabled (some elf) image r = some (image', true) →
    ∃ anchorVma minVma, elfSymbolValue elf anchorName = .hit anchorVma ∧
      image.uint 0 8 = some minVma ∧ minVma ≤ anchorVma ∧ image'.size = image.size ∧
      ∀ p, p < 16 + (anchorVma - minVma) ∨ 16 + (anchorVma - minVma) + 8 ≤ p →
        image'.bytes[p]? = image.bytes[p]?

/-- The span of the image does not wrap, or a check refuses the anchor all the same. -/
def PatchServed (anchorVma minVma size : ℕ) : Prop :=
  anchorVma < minVma ∨ anchorVma - minVma + 24 < 2 ^ 64 ∨
    (2 ^ 64 ≤ anchorVma - minVma + 16 ∧ size < anchorVma - minVma + 24 - 2 ^ 64)

section Patch

variable {elf image image' : Blob} {v minVma : ℕ} {r : PatchReplies} {enabled b : Bool}

theorem imageOffset_eq (hv : v < 2 ^ 64) (hle : minVma ≤ v) :
    imageOffset v minVma = (16 + (v - minVma)) % 2 ^ 64 := by
  unfold imageOffset add64 sub64
  omega

/-- What a run does: it is stuck in the file, it leaves the image, or it writes to it. -/
theorem sanitizePatchImage_cases (hserved : elfSymbolValue elf anchorName ≠ .stuck) :
    sanitizePatchImage enabled (some elf) image r = some (image, false) ∨
      ∃ v minVma base, elfSymbolValue elf anchorName = .hit v ∧ image.uint 0 8 = some minVma ∧
        16 ≤ image.size ∧ minVma ≤ v ∧ add64 (imageOffset v minVma) 8 ≤ image.size ∧
        sanitizePatchImage enabled (some elf) image r =
          (image.patch (imageOffset v minVma) (toLE 8 base)).map fun image => (image, true) := by
  unfold sanitizePatchImage
  by_cases henabled : enabled = false
  · rw [if_pos henabled]
    exact .inl rfl
  rw [if_neg henabled]
  dsimp only
  split
  next hstuck => exact absurd hstuck hserved
  next => exact .inl rfl
  next v hv =>
  split
  · exact .inl rfl
  next hsize =>
  split
  next hnone =>
    have hsome : (image.uint 0 8).isSome := by
      rw [Blob.uint_isSome]
      omega
    rw [hnone] at hsome
    cases hsome
  next minVma hmin =>
  split
  · exact .inl rfl
  next hbounds =>
  split
  · exact .inl rfl
  split
  · exact .inl rfl
  next base hbase =>
  push Not at hbounds
  exact .inr ⟨v, minVma, base, hv, hmin, by omega, hbounds.1, hbounds.2, rfl⟩

/-- The run that writes, on a device that is there. -/
theorem sanitizePatchImage_writes (base : ℕ) (hv : elfSymbolValue elf anchorName = .hit v)
    (hmin : image.uint 0 8 = some minVma) (hsize : 16 ≤ image.size) (hle : minVma ≤ v)
    (hfits : add64 (imageOffset v minVma) 8 ≤ image.size) :
    sanitizePatchImage true (some elf) image ⟨none, some base⟩ =
      (image.patch (imageOffset v minVma) (toLE 8 base)).map fun image => (image, true) := by
  unfold sanitizePatchImage
  rw [if_neg (by decide)]
  dsimp only
  rw [hv]
  dsimp only
  rw [if_neg (by omega), hmin]
  dsimp only
  rw [if_neg (by omega)]

/-- A write where the span does not wrap is at the anchor. -/
theorem served_inside (hv : v < 2 ^ 64) (hle : minVma ≤ v) (hserved : PatchServed v minVma image.size)
    (hfits : add64 (imageOffset v minVma) 8 ≤ image.size) :
    imageOffset v minVma = 16 + (v - minVma) ∧ imageOffset v minVma + 8 ≤ image.size := by
  rw [imageOffset_eq hv hle] at hfits ⊢
  unfold add64 at hfits
  rcases hserved with hlt | hlt | ⟨hge, hsmall⟩ <;> omega

/-- A write where it wraps is outside the image, or at its header. -/
theorem not_served (hv : v < 2 ^ 64) (hserved : ¬ PatchServed v minVma image.size)
    (hsize : 16 ≤ image.size) : minVma ≤ v ∧ add64 (imageOffset v minVma) 8 ≤ image.size ∧
      (image.size < imageOffset v minVma + 8 ∨
        (imageOffset v minVma + 8 ≤ image.size ∧ imageOffset v minVma < 16 + (v - minVma))) := by
  unfold PatchServed at hserved
  push Not at hserved
  obtain ⟨hle, hwrap, hsmall⟩ := hserved
  have hlt := image.size_lt
  rw [imageOffset_eq hv hle]
  unfold add64
  omega

/-- The patch is safe if and only if the walk over the file is served, and so is the span of the image
up to the first symbol of the anchor's name. -/
theorem patching_safe_iff (elf image : Blob) : PatchingSafe elf image ↔
    ElfServed elf anchorName ∧ (16 ≤ image.size → ∀ v minVma, SymbolIs elf anchorName v →
      image.uint 0 8 = some minVma → PatchServed v minVma image.size) := by
  rw [← elfSymbolValue_safe_iff]
  constructor
  · intro h
    refine ⟨h.symbol, fun hsize v minVma hsymbol hmin => ?_⟩
    by_contra hserved
    obtain ⟨hle, hfits, hbad⟩ := not_served hsymbol.lt hserved hsize
    have hhit := elfSymbolValue_hit_iff.mpr hsymbol
    rcases hbad with hout | ⟨hin, hshort⟩
    · have hinside := h.inside true ⟨none, some 0⟩
      rw [sanitizePatchImage_writes 0 hhit hmin hsize hle hfits] at hinside
      apply hinside
      rw [Option.map_eq_none_iff]
      unfold Blob.patch
      rw [dif_neg (by rw [toLE_length]; exact not_le.mpr hout)]
    · -- The write is at a byte of the header, and changes it for some address.
      have hlt : imageOffset v minVma < image.bytes.length := by
        show imageOffset v minVma < image.size
        omega
      set x := image.bytes[imageOffset v minVma] with hx
      have hroom : imageOffset v minVma + (toLE 8 (x + 1).toNat).length ≤ image.size := by
        rw [toLE_length]
        exact hin
      obtain ⟨image', hpatch⟩ := Blob.exists_patch hroom
      have hrun := sanitizePatchImage_writes (x + 1).toNat hhit hmin hsize hle hfits
      rw [hpatch] at hrun
      obtain ⟨v', min', hhit', hmin', -, -, hsame⟩ := h.patched _ _ _ hrun
      rw [hhit] at hhit'
      rw [hmin] at hmin'
      cases hhit'
      cases hmin'
      have hbyte := hsame (imageOffset v minVma) (.inl hshort)
      have hwritten := Blob.patch_within hpatch (show 0 < (toLE 8 (x + 1).toNat).length by
        rw [toLE_length]
        decide)
      rw [Nat.add_zero, hbyte, List.getElem?_eq_getElem hlt, ← hx] at hwritten
      have hequal : x = UInt8.ofNat (x + 1).toNat := Option.some_inj.mp hwritten
      rw [UInt8.ofNat_toNat] at hequal
      have hne : x.toNat ≠ (x + 1).toNat := by
        have hlt := x.toNat_lt
        rw [UInt8.toNat_add, show (1 : UInt8).toNat = 1 from rfl]
        omega
      exact hne (congrArg UInt8.toNat hequal)
  · rintro ⟨hwalk, hserved⟩
    refine ⟨hwalk, fun enabled r => ?_, fun enabled r image' hrun => ?_⟩
    · rcases sanitizePatchImage_cases hwalk with hsame | ⟨v, minVma, base, hhit, hmin, hsize, hle, hfits, hrun⟩
      · rw [hsame]
        nofun
      · have hsymbol := elfSymbolValue_hit_iff.mp hhit
        obtain ⟨-, hin⟩ := served_inside hsymbol.lt hle (hserved hsize v minVma hsymbol hmin) hfits
        have hroom : imageOffset v minVma + (toLE 8 base).length ≤ image.size := by
          rw [toLE_length]
          exact hin
        obtain ⟨image', hpatch⟩ := Blob.exists_patch hroom
        rw [hrun, hpatch]
        nofun
    · rcases sanitizePatchImage_cases hwalk with hsame | ⟨v, minVma, base, hhit, hmin, hsize, hle, hfits, hwrites⟩
      · rw [hsame] at hrun
        cases hrun
      · have hsymbol := elfSymbolValue_hit_iff.mp hhit
        obtain ⟨hoff, -⟩ := served_inside hsymbol.lt hle (hserved hsize v minVma hsymbol hmin) hfits
        rw [hwrites] at hrun
        obtain ⟨image'', hpatch, heq⟩ := Option.map_eq_some_iff.mp hrun
        cases heq
        refine ⟨v, minVma, hhit, hmin, hle, Blob.patch_size hpatch, fun p hp => ?_⟩
        apply Blob.patch_outside hpatch
        rw [hoff, toLE_length]
        exact hp

end Patch

/-- A file of a header, with its section table 64 bytes before the end of the address space. -/
def wrappedElf : Blob :=
  ⟨[0x7f, 0x45, 0x4c, 0x46, 2, 1] ++ List.replicate 34 0 ++
      [0xc0, 0xff, 0xff, 0xff, 0xff, 0xff, 0xff, 0xff] ++ List.replicate 10 0 ++ [64, 0, 1, 0, 0, 0],
    by decide⟩

/-- Its one section is read outside the file. -/
theorem patching_safe_not : ¬ ∀ elf image : Blob, PatchingSafe elf image := by
  intro h
  have hstuck : elfSymbolValue wrappedElf anchorName = .stuck := by decide
  exact (h wrappedElf wrappedElf).symbol hstuck

end Grxcp.Runtime
