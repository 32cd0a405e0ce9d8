import Grxcp.Lib.Scan
import Grxcp.Runtime.FatBinary

/-!
# The anchor of an instrumented image

`elf_symbol_value` and `sanitize_patch_image` of `sanitize.cpp`: the value of a symbol of an ELF file, and
the write of an address to where an image has the symbol. A `memcpy` that does not lie inside its buffer is
a run that is stuck. Field sums are those of `uint64_t`, and wrap; a pointer is its offset from the buffer.
-/

namespace Grxcp.Runtime

open Scan

/-! ## The file -/

/-- `Elf64Header`, by what is read of it. -/
structure Elf64Header where
  ident : List UInt8
  shoff : ℕ
  shentsize : ℕ
  shnum : ℕ
deriving DecidableEq, Repr

/-- `Elf64Section`, by what is read of it. -/
structure Elf64Section where
  type : ℕ
  offset : ℕ
  size : ℕ
  link : ℕ
  entsize : ℕ
deriving DecidableEq, Repr

/-- `Elf64Sym`, by what is read of it. -/
structure Elf64Sym where
  name : ℕ
  value : ℕ
deriving DecidableEq, Repr

/-- `sizeof(Elf64Header)`. -/
def elfHeaderBytes : ℕ := 64

/-- `sizeof(Elf64Section)`. -/
def elfSectionBytes : ℕ := 64

/-- `sizeof(Elf64Sym)`. -/
def elfSymBytes : ℕ := 24

/-- `SHT_SYMTAB`. -/
def SHT_SYMTAB : ℕ := 2

/-- An integer field of a structure that was copied. -/
def field (xs : List UInt8) (off n : ℕ) : ℕ :=
  ofLE ((xs.drop off).take n)

namespace Blob

def elfHeader (b : Blob) : Option Elf64Header :=
  (b.read 0 elfHeaderBytes).map fun xs =>
    { ident := xs.take 16
      shoff := field xs 40 8
      shentsize := field xs 58 2
      shnum := field xs 60 2 }

def elfSection (b : Blob) (off : ℕ) : Option Elf64Section :=
  (b.read off elfSectionBytes).map fun xs =>
    { type := field xs 4 4
      offset := field xs 24 8
      size := field xs 32 8
      link := field xs 40 4
      entsize := field xs 56 8 }

def elfSym (b : Blob) (off : ℕ) : Option Elf64Sym :=
  (b.read off elfSymBytes).map fun xs =>
    { name := field xs 0 4
      value := field xs 8 8 }

/-- `strcmp(name, want) == 0`, of a name at an offset: it reads up to the first byte that differs. -/
def strcmpAt (b : Blob) : ℕ → List UInt8 → Option Bool
  | off, [] => b.bytes[off]?.map (· = 0)
  | off, w :: ws =>
    match b.bytes[off]? with
    | none => none
    | some x => if x = w then strcmpAt b (off + 1) ws else some false

end Blob

/-! ## The symbol -/

/-- One pass of the inner loop: symbol `k` of a table. -/
def elfSymbolAt (elf : Blob) (sh str : Elf64Section) (want : List UInt8) (k : ℕ) : Result ℕ :=
  .ofOption (elf.elfSym (sh.offset + k * elfSymBytes)) fun sym =>
    if sym.name = 0 ∨ str.size ≤ sym.name then .miss
    else
      .ofOption (elf.strcmpAt (str.offset + sym.name) want) fun equal =>
        if equal then .hit sym.value else .miss

/-- One pass of the outer loop: section `i`. -/
def elfSectionAt (elf : Blob) (eh : Elf64Header) (want : List UInt8) (i : ℕ) : Result ℕ :=
  .ofOption (elf.elfSection (eh.shoff + i * eh.shentsize)) fun sh =>
    if sh.type ≠ SHT_SYMTAB then .miss
    else if sh.entsize ≠ elfSymBytes ∨ eh.shnum ≤ sh.link then .miss
    else
      .ofOption (elf.elfSection (eh.shoff + sh.link * eh.shentsize)) fun str =>
        if elf.size < add64 sh.offset sh.size ∨ elf.size < add64 str.offset str.size then .miss
        else scan (elfSymbolAt elf sh str want) (sh.size / elfSymBytes)

/-- The header is that of a 64-bit little-endian file whose section table ends in the file, as the code
adds. -/
def Elf64Header.Accepted (eh : Elf64Header) (size : ℕ) : Prop :=
  eh.ident.take 4 = [0x7f, 0x45, 0x4c, 0x46] ∧ eh.ident[4]? = some 2 ∧ eh.ident[5]? = some 1 ∧
    eh.shentsize = elfSectionBytes ∧ add64 eh.shoff (eh.shnum * eh.shentsize) ≤ size

instance (eh : Elf64Header) (size : ℕ) : Decidable (eh.Accepted size) :=
  inferInstanceAs (Decidable (_ ∧ _))

/-- `elf_symbol_value`: a miss is `false`. -/
def elfSymbolValue (elf : Blob) (want : List UInt8) : Result ℕ :=
  if elf.size < elfHeaderBytes then .miss
  else
    .ofOption elf.elfHeader fun eh =>
      if eh.Accepted elf.size then scan (elfSectionAt elf eh want) eh.shnum else .miss

/-! ## The patch -/

/-- `"__grx_san_anchor"`. -/
def anchorName : List UInt8 :=
  [0x5f, 0x5f, 0x67, 0x72, 0x78, 0x5f, 0x73, 0x61, 0x6e, 0x5f, 0x61, 0x6e, 0x63, 0x68, 0x6f, 0x72]

/-- What the layers below answer: whether the device is there, and the address of its control block. -/
structure PatchReplies where
  acquire : Option GrxError := none
  block : Option ℕ := some 0

/-- Where an image from `min_vma` on has the byte of an address, after its two bounds. -/
def imageOffset (anchorVma minVma : ℕ) : ℕ :=
  add64 16 (sub64 anchorVma minVma)

/-- `sanitize_patch_image`, of the ELF file as it was read, if it was. A run that is stuck has no
result. -/
def sanitizePatchImage (enabled : Bool) (elf : Option Blob) (image : Blob) (r : PatchReplies) :
    Option (Blob × Bool) :=
  if enabled = false then some (image, false)
  else
    match elf with
    | none => some (image, false)
    | some elf =>
      match elfSymbolValue elf anchorName with
      | .stuck => none
      | .miss => some (image, false)
      | .hit anchorVma =>
        if image.size < 16 then some (image, false)
        else
          match image.uint 0 8 with
          | none => none
          | some minVma =>
            let off := imageOffset anchorVma minVma
            if anchorVma < minVma ∨ image.size < add64 off 8 then some (image, false)
            else
              match r.acquire with
              | some _ => some (image, false)
              | none =>
                match r.block with
                | none => some (image, false)
                | some base => (image.patch off (toLE 8 base)).map fun image => (image, true)

end Grxcp.Runtime
