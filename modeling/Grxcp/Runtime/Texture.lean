import Grxcp.Runtime.Types

/-!
# Texture arrays

The host side of `texture.cpp`, and the integer side of a fetch in `grx_tex.h`: which texel is read for a
texel coordinate, or that the border colour is returned. `size_t` and device addresses are 64-bit words,
`unsigned` and `int` 32-bit ones. What the runtime answers to an allocation or to the copy of a row is given
with the call. The filter's arithmetic on coordinates and colours is `float` and is left out.
-/

namespace Grxcp.Runtime

def GRX_TEX_FORMAT_FLOAT1 : UInt32 := 0

def GRX_TEX_FORMAT_FLOAT4 : UInt32 := 1

def GRX_TEX_ADDRESS_CLAMP : UInt32 := 0

def GRX_TEX_ADDRESS_WRAP : UInt32 := 1

def GRX_TEX_ADDRESS_MIRROR : UInt32 := 2

def GRX_TEX_ADDRESS_BORDER : UInt32 := 3

def GRX_TEX_FILTER_LINEAR : UInt32 := 1

def GRX_TEXTURE_ABI_VERSION : UInt32 := 1

/-! ## Arrays -/

/-- `ArrayImpl`. -/
structure ArrayImpl where
  data : UInt64
  pitch : UInt64
  width : UInt64
  height : UInt64
  format : UInt32
deriving DecidableEq

/-- `texel_bytes`. -/
def texelBytes (format : UInt32) : UInt64 :=
  if format = GRX_TEX_FORMAT_FLOAT1 then 4 else if format = GRX_TEX_FORMAT_FLOAT4 then 16 else 0

/-- The alignment of a row. -/
def rowAlign (cacheLineSize : Int32) : UInt64 :=
  if 0 < cacheLineSize then cacheLineSize.toInt64.toUInt64 else 256

/-- `row_pitch`. -/
def rowPitch (cacheLineSize : Int32) (width : UInt64) (format : UInt32) : UInt64 :=
  let bytes := width * texelBytes format
  let align := rowAlign cacheLineSize
  (bytes + align - 1) / align * align

/-- `grxMallocArray`. `malloc` is what `grxMalloc` answers for a size. -/
def grxMallocArray (cacheLineSize : Int32) (acquire : Option GrxError) (malloc : UInt64 → Except GrxError UInt64)
    (out : Bool) (format : UInt32) (width height : UInt64) : Except GrxError ArrayImpl :=
  if out = false ∨ width = 0 ∨ height = 0 then .error .invalidValue
  else if texelBytes format = 0 then .error .invalidValue
  else
    match acquire with
    | some e => .error e
    | none =>
      let pitch := rowPitch cacheLineSize width format
      match malloc (pitch * height) with
      | .error e => .error e
      | .ok data => .ok { data, pitch, width, height, format }

/-! ## Copies -/

/-- The arguments of `grxMemcpy2DToArray`: a window, in texels, and where it comes from. -/
structure Window where
  xOffset : UInt64
  yOffset : UInt64
  src : UInt64
  spitch : UInt64
  width : UInt64
  height : UInt64
deriving DecidableEq

/-- A `grxMemcpy` of a row, which succeeded. -/
structure RowCopy where
  dst : UInt64
  src : UInt64
  count : UInt64
deriving DecidableEq

/-- The copy of a row of the window. -/
def Window.row (q : Window) (a : ArrayImpl) (row : ℕ) : RowCopy where
  dst := a.data + ((q.yOffset + UInt64.ofNat row) * a.pitch + q.xOffset * texelBytes a.format)
  src := q.src + UInt64.ofNat row * q.spitch
  count := q.width * texelBytes a.format

/-- The loop of `grxMemcpy2DToArray`, for the next `n` rows: the copies made, and the result. `replies` is
what `grxMemcpy` answers for each row. -/
def Window.copyRows (q : Window) (a : ArrayImpl) (replies : ℕ → Option GrxError) :
    ℕ → ℕ → List RowCopy × Option GrxError
  | 0, _ => ([], none)
  | n + 1, row =>
    match replies row with
    | some e => ([], some e)
    | none =>
      let rest := q.copyRows a replies n (row + 1)
      (q.row a row :: rest.1, rest.2)

/-- `grxMemcpy2DToArray`, on an array. -/
def grxMemcpy2DToArray (a : ArrayImpl) (q : Window) (replies : ℕ → Option GrxError) :
    List RowCopy × Option GrxError :=
  if q.src = 0 then ([], some .invalidValue)
  else if a.width < q.xOffset + q.width ∨ a.height < q.yOffset + q.height then ([], some .invalidValue)
  else q.copyRows a replies q.height.toNat 0

/-! ## Texture objects -/

/-- What `grxCreateTextureObject` checks and passes on of `grxTextureDesc_t`. -/
structure SamplerDesc where
  addressX : UInt32
  addressY : UInt32
  filterMode : UInt32
deriving DecidableEq

/-- What a fetch reads of `grx_texture_desc`. -/
structure TextureDesc where
  abiVersion : UInt32
  format : UInt32
  width : UInt32
  height : UInt32
  pitch : UInt32
  addressX : UInt32
  addressY : UInt32
  filter : UInt32
  data : UInt64
deriving DecidableEq

/-- The descriptor that `grxCreateTextureObject` stores. -/
def ArrayImpl.texture (a : ArrayImpl) (desc : SamplerDesc) : TextureDesc where
  abiVersion := GRX_TEXTURE_ABI_VERSION
  format := a.format
  width := a.width.toUInt32
  height := a.height.toUInt32
  pitch := a.pitch.toUInt32
  addressX := desc.addressX
  addressY := desc.addressY
  filter := desc.filterMode
  data := a.data

/-- `grxCreateTextureObject`, with the descriptor that it stores. `stored` is what the allocation of the
descriptor and its copy answer. -/
def grxCreateTextureObject (a : ArrayImpl) (desc : SamplerDesc) (stored : Option GrxError) :
    Except GrxError TextureDesc :=
  if GRX_TEX_ADDRESS_BORDER < desc.addressX ∨ GRX_TEX_ADDRESS_BORDER < desc.addressY then .error .invalidValue
  else if GRX_TEX_FILTER_LINEAR < desc.filterMode then .error .invalidValue
  else
    match stored with
    | some e => .error e
    | none => .ok (a.texture desc)

/-! ## Fetches -/

/-- `clamp_index`, with `out_of_range`. -/
def clampIndex (i n : Int32) (mode : UInt32) : Int32 × Bool :=
  if mode = GRX_TEX_ADDRESS_WRAP then
    let m := i % n
    (if m < 0 then m + n else m, false)
  else if mode = GRX_TEX_ADDRESS_MIRROR then
    let period := 2 * n
    let m := i % period
    let m := if m < 0 then m + period else m
    (if m < n then m else period - 1 - m, false)
  else if mode = GRX_TEX_ADDRESS_BORDER then
    if i < 0 ∨ n ≤ i then (0, true) else (i, false)
  else (if i < 0 then 0 else if n ≤ i then n - 1 else i, false)

/-- The address that `load1` and `load4` read, of texels of a size. -/
def TextureDesc.load (d : TextureDesc) (texel : UInt32) (x y : Int32) : UInt64 :=
  d.data + (y.toUInt32 * d.pitch).toUInt64 + (x.toUInt32 * texel).toUInt64

/-- What a fetch returns: a texel, by its address, or the border colour. -/
inductive Fetched
  | texel (address : UInt64)
  | border
deriving DecidableEq

/-- `fetch`. Out of range, it reads the first texel and returns the border. -/
def TextureDesc.fetch (d : TextureDesc) (texel : UInt32) (x y : Int32) : Fetched :=
  let xi := clampIndex x d.width.toInt32 d.addressX
  let yi := clampIndex y d.height.toInt32 d.addressY
  let oob := xi.2 || yi.2
  let t := d.load texel (if oob then 0 else xi.1) (if oob then 0 else yi.1)
  if oob then .border else .texel t

/-- `fetch<float>`. -/
def TextureDesc.fetchFloat (d : TextureDesc) : Int32 → Int32 → Fetched :=
  d.fetch 4

/-- `fetch<float4_t>`. -/
def TextureDesc.fetchFloat4 (d : TextureDesc) : Int32 → Int32 → Fetched :=
  d.fetch 16

/-- The fetch of an array's own format. -/
def TextureDesc.fetchFormat (d : TextureDesc) : Int32 → Int32 → Fetched :=
  if d.format = GRX_TEX_FORMAT_FLOAT4 then d.fetchFloat4 else d.fetchFloat

end Grxcp.Runtime
