import Grxcp.Runtime.SymbolVisible

/-!
# What a symbol copy leaves

The copy patches the fat binary at the symbol's place and drops the modules, so it leaves another
variable's value if what the reload brings back is what the variable held: if no kernel has written it.
And the place, that of an address past the payload too, is counted from the first entry's start: it is
in another entry when the window reaches that far.
-/

namespace Grxcp.Runtime.Symbols

variable {L : Loader} {p : Program} {s s' : Tables} {f device : ℕ} {b b' b₀ : Blob}
  {header : GrxFatbinHeader}

/-- What the loader puts at an address is up to the link addresses and the byte that the image has for
it. -/
def Loader.Local (L : Loader) : Prop :=
  ∀ image image' address, image'.length = image.length → image'.take 16 = image.take 16 →
    imageAt image' address = imageAt image address → L.place image' address = L.place image address

/-- The byte that the next kernel of a fat binary on a device finds at an address: the module's, or
what its load will put there. -/
def valueAt (L : Loader) (s : Tables) (f device address : ℕ) : Option UInt8 :=
  match (s.fatbins f).modules device with
  | some m => some (s.memory m.id address)
  | none =>
    match imageFor L (s.fatbins f) device with
    | some (.ok image) => some (L.place image address)
    | _ => none

/-- Between two states, only the bytes of one symbol of `f` change: no byte of another variable does on
any device, and no byte of another entry of the fat binary. -/
structure Framed (L : Loader) (s s' : Tables) (symbol : ℕ) (v : Variable) (f : ℕ) : Prop where
  values : ∀ symbol' v' g, symbol' ≠ symbol → s.symbols symbol' = some v' → v'.fatbin = some g →
    ∀ address, v'.vma ≤ address → address < v'.vma + v'.size →
      ¬ (g = f ∧ v.vma ≤ address ∧ address < v.vma + v.size) →
      ∀ device, valueAt L s' g device address = valueAt L s g device address
  entries : ∀ header, (s.fatbins f).shadow.header = some header →
    ∀ i < header.numEntries, i ≠ 0 → ∀ e, (s.fatbins f).shadow.entry i = some e →
      ∀ k, e.offset ≤ k → k < e.offset + e.size →
        (s'.fatbins f).shadow.bytes[k]? = (s.fatbins f).shadow.bytes[k]?

/-- The place of the window, counted from the first entry's start, is in no other entry. -/
def Parted (b : Blob) (v : Variable) (offset count : ℕ) : Prop :=
  ∀ header e lo, b.header = some header → b.entry 0 = some e → b.uint e.offset 8 = some lo →
    ∀ i < header.numEntries, i ≠ 0 → ∀ e', b.entry i = some e' → e'.size ≠ 0 →
      e.offset + 16 + (v.vma + offset - lo) + count ≤ e'.offset ∨
      e'.offset + e'.size ≤ e.offset + 16 + (v.vma + offset - lo)

/-- On every device that has a module of the fat binary, every other variable of it holds what the
module was loaded with. -/
def Unwritten (L : Loader) (s : Tables) (symbol : ℕ) (v : Variable) (f : ℕ) : Prop :=
  ∀ device m, (s.fatbins f).modules device = some m →
    ∀ symbol' v', symbol' ≠ symbol → s.symbols symbol' = some v' → v'.fatbin = some f →
      ∀ address, v'.vma ≤ address → address < v'.vma + v'.size →
        ¬ (v.vma ≤ address ∧ address < v.vma + v.size) →
        s.memory m.id address = L.place m.image address

/-! ## Images before and after -/

/-- A device's image is an entry of a well-formed container. -/
theorem WellFormed.selected {isaFlags : Except VxError ℕ} {image : Image} (h : WellFormed b header)
    (hsel : selectImage b isaFlags = some (.ok image)) :
    ∃ i < header.numEntries, ∃ e, b.entry i = some e ∧ image = ⟨e.offset, e.size⟩ ∧ 16 ≤ e.size := by
  cases isaFlags with
  | error r =>
    have hnot := selectImage_refused (b := b) (.error r) (.of_accepts h.accepts)
      (fun _ _ _ hno => by cases hno)
    obtain ⟨error, heq⟩ := hnot
    rw [heq] at hsel
    cases hsel
  | ok isa =>
    rcases selectImage_cases h.accepts isa with
      ⟨_, _, _, _, heq⟩ | ⟨_, _, _, _, _, _, error, heq⟩ | ⟨_, _, error, heq⟩ | ⟨_, best, hbest, heq⟩
    · rw [heq] at hsel
      cases hsel
    · rw [heq] at hsel
      cases hsel
    · rw [heq] at hsel
      cases hsel
    · rw [heq] at hsel
      cases hsel
      obtain ⟨⟨i, hi, he, -⟩, hruns, -⟩ := hbest
      exact ⟨i, hi, best, he, rfl, h.vxbin i hi best he hruns.1⟩

/-- Two blobs that agree on the bytes of a read, but for a window. -/
theorem read_outside {off n w count : ℕ} {image image' : List UInt8}
    (hout : ∀ k, k < w ∨ w + count ≤ k → b'.bytes[k]? = b.bytes[k]?)
    (himage : b.read off n = some image) (himage' : b'.read off n = some image') {k : ℕ}
    (hk : off + k < w ∨ w + count ≤ off + k) : image'[k]? = image[k]? := by
  by_cases hkn : k < n
  · rw [Blob.read_getElem? himage hkn, Blob.read_getElem? himage' hkn]
    exact hout (off + k) hk
  · rw [List.getElem?_eq_none (by rw [Blob.read_length himage']; omega),
      List.getElem?_eq_none (by rw [Blob.read_length himage]; omega)]

theorem imageAt_congr {image image' : List UInt8} {address : ℕ}
    (htake : image'.take 16 = image.take 16)
    (hbyte : image'[16 + (address - ofLE (image.take 8))]? =
      image[16 + (address - ofLE (image.take 8))]?) :
    imageAt image' address = imageAt image address := by
  have h8 : image'.take 8 = image.take 8 := by
    have h := congrArg (List.take 8) htake
    rwa [List.take_take, List.take_take] at h
  unfold imageAt
  rw [h8, hbyte]

/-- The patch of a window that is in no other entry changes a device's image at the window's addresses
only. -/
theorem imageFor_patched {fb : FatBinary} {v : Variable} {e : GrxFatbinEntry}
    {lo offset : ℕ} {xs : List UInt8} {image : List UInt8} (hL : L.Local)
    (hpoint : fb.image = .shadow) (hwf : WellFormed fb.shadow header)
    (he : fb.shadow.entry 0 = some e) (hlo : fb.shadow.uint e.offset 8 = some lo)
    (hle : lo ≤ v.vma)
    (hpatch : fb.shadow.patch (e.offset + 16 + (v.vma + offset - lo)) xs = some b')
    (hin : offset + xs.length ≤ v.size) (hparted : Parted fb.shadow v offset xs.length)
    (himage : imageFor L fb device = some (.ok image)) (modules : ℕ → Option VxModule) :
    ∃ image', imageFor L { fb with shadow := b', modules } device = some (.ok image') ∧
      ∀ address, ¬ (v.vma ≤ address ∧ address < v.vma + v.size) →
        L.place image' address = L.place image address := by
  have hkept : Kept fb.shadow b' := .patch hwf he (by omega) hpatch
  have hout := fun k hk => Blob.patch_outside (k := k) hpatch hk
  rw [imageFor_shadow hpoint hwf] at himage
  have hpoint' : ({ fb with shadow := b', modules } : FatBinary).image = .shadow := hpoint
  rw [imageFor_shadow hpoint' (hkept.wellFormed hwf), hkept.selectImage]
  split at himage
  · cases himage
  · cases himage
  next chosen hsel =>
  obtain ⟨i, hi, e', he', rfl, h16⟩ := hwf.selected hsel
  obtain ⟨image₀, hread, himage₀⟩ := Option.map_eq_some_iff.mp himage
  cases himage₀
  change fb.shadow.read e'.offset e'.size = some image at hread
  have hsize := (hwf.payload i hi e' he').2
  obtain ⟨image', hread'⟩ := Option.isSome_iff_exists.mp
    ((b'.read_isSome e'.offset e'.size).mpr (by rw [hkept.size]; exact hsize))
  refine ⟨image', by simp [hread'], ?_⟩
  intro address haddress
  have hlen : image'.length = image.length := by
    rw [Blob.read_length hread, Blob.read_length hread']
  have hsame := fun k hk => read_outside (k := k) hout hread hread' hk
  by_cases hi0 : i = 0
  · subst hi0
    rw [he] at he'
    cases he'
    have htake : image'.take 16 = image.take 16 := by
      apply List.ext_getElem?
      intro k
      by_cases hk : k < 16
      · rw [List.getElem?_take_of_lt hk, List.getElem?_take_of_lt hk]
        exact hsame k (.inl (by omega))
      · rw [List.getElem?_take_eq_none (by omega), List.getElem?_take_eq_none (by omega)]
    have hlo' := ofLE_take hread (by omega) hlo
    apply hL image image' address hlen htake
    by_cases hlow : address < lo
    · have hlo'' := ofLE_take hread' (by omega) (by rw [hkept.lo e he, hlo])
      unfold imageAt
      rw [hlo', hlo'', if_pos hlow, if_pos hlow]
    · apply imageAt_congr htake
      rw [hlo']
      apply hsame
      omega
  · have hbytes : image' = image := by
      apply List.ext_getElem?
      intro k
      by_cases hk : k < e'.size
      · apply hsame
        have hapart := hparted header e lo hwf.header_eq he hlo i hi hi0 e' he' (by omega)
        omega
      · rw [List.getElem?_eq_none (by rw [Blob.read_length hread']; omega),
          List.getElem?_eq_none (by rw [Blob.read_length hread]; omega)]
    rw [hbytes]

/-- A device that gets no image of the copy gets none of the patched one. -/
theorem imageFor_patched_none {fb : FatBinary} {image' : List UInt8} (hpoint : fb.image = .shadow)
    (hwf : WellFormed fb.shadow header) (hkept : Kept fb.shadow b') (modules : ℕ → Option VxModule)
    (himage : imageFor L { fb with shadow := b', modules } device = some (.ok image')) :
    ∃ image, imageFor L fb device = some (.ok image) := by
  have hpoint' : ({ fb with shadow := b', modules } : FatBinary).image = .shadow := hpoint
  rw [imageFor_shadow hpoint' (hkept.wellFormed hwf), hkept.selectImage] at himage
  rw [imageFor_shadow hpoint hwf]
  split at himage
  · cases himage
  · cases himage
  next chosen hsel =>
  obtain ⟨i, hi, e, he, rfl, -⟩ := hwf.selected hsel
  obtain ⟨image, hread⟩ := Option.isSome_iff_exists.mp
    ((fb.shadow.read_isSome e.offset e.size).mpr (hwf.payload i hi e he).2)
  exact ⟨image, by simp [hread]⟩

/-! ## The copy at a reachable state -/

/-- Every variable ends below 2^64 and is one of a well-formed container. -/
def Program.Sound (p : Program) : Prop :=
  ∀ symbol v f, p.symbols symbol = some v → v.fatbin = some f →
    v.vma + v.size < 2 ^ 64 ∧ ∃ b₀ header, p.arrays f = some b₀ ∧ WellFormed b₀ header

/-- The tables and the fat binary at a copy that finds its symbol: the window starts `at` the place of
the address behind the first entry's link addresses. -/
structure Copying (L : Loader) (s : Tables) (offset count : ℕ) (v : Variable) (f : ℕ)
    (header : GrxFatbinHeader) (e : GrxFatbinEntry) (lo : ℕ) : Prop where
  coherent : Coherent L s f
  image : (s.fatbins f).image = .shadow
  wellFormed : WellFormed (s.fatbins f).shadow header
  window : offset + count ≤ v.size
  first : (s.fatbins f).shadow.entry 0 = some e
  lo_eq : (s.fatbins f).shadow.uint e.offset 8 = some lo
  lo_le : lo ≤ v.vma
  inside : e.offset + 16 + (v.vma + offset - lo) + count ≤ (s.fatbins f).shadow.size

/-- In a run of a sound program, a symbol that is found is copied so. -/
theorem copying_of_found (hp : p.Sound) (calls : List Call) {symbol offset count off : ℕ}
    {v : Variable} (hs : s = Runs.after (step L) p.tables calls)
    (h : findSymbol s symbol count offset = some (.ok (v, f, off))) :
    ∃ header e lo, Copying L s offset count v f header e lo ∧
      off = e.offset + 16 + (v.vma + offset - lo) := by
  obtain ⟨-, hv, hin, hf, base, hbase, hne, hoff⟩ := findSymbol_ok h
  have hsymbols : s.symbols = p.symbols := by
    rw [hs]
    exact run_symbols calls
  rw [hsymbols] at hv
  obtain ⟨hwrap, b₀, header, harray, hwf⟩ := hp symbol v f hv hf
  have hbound : p.Bounded f := fun symbol' v' hsym hfat => (hp symbol' v' f hsym hfat).1
  have htr := (Traced.start (L := L) harray hwf).run hwf hbound calls
  rw [← hs] at htr
  have hwf' := htr.kept.wellFormed hwf
  obtain ⟨e, lo, hi, he, -, hlo, -, hle, -, hplace, hend⟩ := symbolOffset_eq hwf' hwrap hbase hne
  have hlt := (s.fatbins f).shadow.size_lt
  have hadd : add64 base offset = e.offset + 16 + (v.vma + offset - lo) := by
    unfold add64
    rw [Nat.mod_eq_of_lt (by omega)]
    omega
  exact ⟨header, e, lo, ⟨htr.coherent, htr.image, hwf', hin, he, hlo, hle, by omega⟩, by omega⟩

namespace Copying

variable {offset count : ℕ} {v : Variable} {e : GrxFatbinEntry} {lo : ℕ}

/-- A copy of any bytes of that count succeeds. -/
theorem succeeds (h : Copying L s offset count v f header e lo) {symbol : ℕ} {src : List UInt8}
    (hlen : src.length = count) (hpos : count ≠ 0)
    (hfound : findSymbol s symbol count offset =
      some (.ok (v, f, e.offset + 16 + (v.vma + offset - lo)))) :
    ∃ b', (s.fatbins f).shadow.patch (e.offset + 16 + (v.vma + offset - lo)) src = some b' ∧
      grxMemcpyToSymbol s symbol (some src) offset .default =
        some (invalidateFatbin (s.withShadow f b') f, .ok ()) := by
  subst hlen
  obtain ⟨b', hpatch⟩ := Blob.exists_patch h.inside
  refine ⟨b', hpatch, ?_⟩
  have hkind : ¬ (MemcpyKind.default ≠ .hostToDevice ∧ MemcpyKind.default ≠ .default) :=
    fun hno => hno.2 rfl
  simp only [grxMemcpyToSymbol, if_neg hkind, if_neg hpos, hfound, hpatch]

/-- What a device's next kernel finds after the copy, outside the symbol. -/
theorem valueAt_copied (h : Copying L s offset count v f header e lo) (hL : L.Local)
    {src : List UInt8} (hlen : src.length = count)
    (hpatch : (s.fatbins f).shadow.patch (e.offset + 16 + (v.vma + offset - lo)) src = some b')
    (hparted : Parted (s.fatbins f).shadow v offset count) {address : ℕ}
    (hout : ¬ (v.vma ≤ address ∧ address < v.vma + v.size)) (device : ℕ) :
    valueAt L (invalidateFatbin (s.withShadow f b') f) f device address =
      match imageFor L (s.fatbins f) device with
      | some (.ok image) => some (L.place image address)
      | _ => none := by
  subst hlen
  have hkept : Kept (s.fatbins f).shadow b' := .patch h.wellFormed h.first (by omega) hpatch
  unfold valueAt
  rw [fatbins_copied]
  dsimp only
  by_cases himage : ∃ image, imageFor L (s.fatbins f) device = some (.ok image)
  · obtain ⟨image, himage⟩ := himage
    obtain ⟨image', himage', hplace⟩ := imageFor_patched hL h.image h.wellFormed h.first h.lo_eq
      h.lo_le hpatch h.window hparted himage (fun _ => none)
    rw [himage, himage']
    dsimp only
    rw [hplace address hout]
  · have hnone : ∀ image', imageFor L { s.fatbins f with shadow := b', modules := fun _ => none }
        device ≠ some (.ok image') := fun image' himage' =>
      himage (imageFor_patched_none h.image h.wellFormed hkept _ himage')
    split
    · next image' himage' => exact absurd himage' (hnone image')
    · split
      · next image himage' => exact absurd ⟨image, himage'⟩ himage
      · rfl

/-- A window apart from the other entries, and variables that no kernel has written, are framed. -/
theorem framed (h : Copying L s offset count v f header e lo) (hL : L.Local) {symbol : ℕ}
    {src : List UInt8} (hlen : src.length = count)
    (hpatch : (s.fatbins f).shadow.patch (e.offset + 16 + (v.vma + offset - lo)) src = some b')
    (hparted : Parted (s.fatbins f).shadow v offset count) (hunwritten : Unwritten L s symbol v f) :
    Framed L s (invalidateFatbin (s.withShadow f b') f) symbol v f := by
  refine ⟨?_, ?_⟩
  · intro symbol' v' g hne hv' hg address hlow hhigh hout device
    by_cases hgf : g = f
    · subst hgf
      have hout' : ¬ (v.vma ≤ address ∧ address < v.vma + v.size) := fun hno => hout ⟨rfl, hno⟩
      rw [h.valueAt_copied hL hlen hpatch hparted hout' device]
      unfold valueAt
      split
      · next image himage =>
        split
        · next m hm =>
          have hload := h.coherent.loaded device m hm
          rw [himage] at hload
          cases hload
          rw [hunwritten device m hm symbol' v' hne hv' hg address hlow hhigh hout']
        · rfl
      · next hnot =>
        split
        · next m hm => exact absurd (h.coherent.loaded device m hm) (hnot m.image)
        · rfl
    · unfold valueAt
      rw [fatbins_spared s b' hgf]
      rfl
  · intro header' hheader i hi hi0 e' he' k hlow hhigh
    rw [fatbins_copied]
    apply Blob.patch_outside hpatch
    have hapart := hparted header' e lo hheader h.first h.lo_eq i hi hi0 e' he' (by omega)
    omega

/-- A window in another entry is not: some bytes change one there. -/
theorem parted (h : Copying L s offset count v f header e lo) {symbol : ℕ} (hpos : count ≠ 0)
    (hframed : ∀ src b', src.length = count →
      (s.fatbins f).shadow.patch (e.offset + 16 + (v.vma + offset - lo)) src = some b' →
      Framed L s (invalidateFatbin (s.withShadow f b') f) symbol v f) :
    Parted (s.fatbins f).shadow v offset count := by
  intro header' e₀ lo₀ hheader he₀ hlo₀ i hi hi0 e' he' hsize
  rw [h.first] at he₀
  cases he₀
  rw [h.lo_eq] at hlo₀
  cases hlo₀
  by_contra hmeet
  have hheader' := hheader
  rw [h.wellFormed.header_eq] at hheader'
  cases hheader'
  -- a place that the window and the other entry share
  obtain ⟨k, hk, hk', hw, hw'⟩ : ∃ k, e'.offset ≤ k ∧ k < e'.offset + e'.size ∧
      e.offset + 16 + (v.vma + offset - lo) ≤ k ∧
      k < e.offset + 16 + (v.vma + offset - lo) + count :=
    ⟨max e'.offset (e.offset + 16 + (v.vma + offset - lo)), by omega, by omega, by omega, by omega⟩
  have hin := (h.wellFormed.payload i hi e' he').2
  have hlt : k < (s.fatbins f).shadow.bytes.length := lt_of_lt_of_le hk' hin
  -- every byte of the source is another than the one there
  have hlen : (List.replicate count ((s.fatbins f).shadow.bytes[k] + 1)).length = count :=
    List.length_replicate
  have hroom := h.inside
  rw [← hlen] at hroom
  obtain ⟨b', hpatch⟩ := Blob.exists_patch hroom
  have hsame := (hframed _ b' hlen hpatch).entries _ hheader i hi hi0 e' he' k hk hk'
  rw [fatbins_copied] at hsame
  have hchanged := Blob.patch_within hpatch (k := k - (e.offset + 16 + (v.vma + offset - lo)))
    (by rw [hlen]; omega)
  rw [Nat.add_sub_cancel' hw, List.getElem?_replicate, if_pos (by omega), hsame,
    List.getElem?_eq_getElem hlt] at hchanged
  have hne : (s.fatbins f).shadow.bytes[k] + 1 ≠ (s.fatbins f).shadow.bytes[k] := by simp
  exact hne (Option.some.inj hchanged).symm

/-- Framed copies tell that the other variables hold what was loaded. -/
theorem unwritten (h : Copying L s offset count v f header e lo) (hL : L.Local) {symbol : ℕ}
    {src : List UInt8} (hlen : src.length = count)
    (hpatch : (s.fatbins f).shadow.patch (e.offset + 16 + (v.vma + offset - lo)) src = some b')
    (hparted : Parted (s.fatbins f).shadow v offset count)
    (hframed : Framed L s (invalidateFatbin (s.withShadow f b') f) symbol v f) :
    Unwritten L s symbol v f := by
  intro device m hm symbol' v' hne hv' hf' address hlow hhigh hout
  have hsame := hframed.values symbol' v' f hne hv' hf' address hlow hhigh
    (fun hno => hout hno.2) device
  rw [h.valueAt_copied hL hlen hpatch hparted hout device, h.coherent.loaded device m hm] at hsame
  unfold valueAt at hsame
  rw [hm] at hsame
  exact (Option.some.inj hsame).symm

end Copying

/-- Every copy that the call accepts, of any bytes to this window of a symbol, changes that symbol's
bytes only. -/
def CopyFramed (L : Loader) (s : Tables) (symbol offset count : ℕ) : Prop :=
  ∀ src kind s' v f, src.length = count → s.symbols symbol = some v → v.fatbin = some f →
    grxMemcpyToSymbol s symbol (some src) offset kind = some (s', .ok ()) → Framed L s s' symbol v f

/-- If the window is found, it is in no other entry, and no kernel has changed another variable of a
module that is loaded. -/
def WindowClear (L : Loader) (s : Tables) (symbol offset count : ℕ) : Prop :=
  ∀ v f off, count ≠ 0 → findSymbol s symbol count offset = some (.ok (v, f, off)) →
    Parted (s.fatbins f).shadow v offset count ∧ Unwritten L s symbol v f

/-- At every state of every run of a sound program, the copies to a window of a symbol change only that
symbol's bytes if and only if the window is clear. -/
theorem symbol_copy_framed_iff (L : Loader) (hL : L.Local) (p : Program) (hp : p.Sound)
    (calls : List Call) (symbol offset count : ℕ) :
    CopyFramed L (Runs.after (step L) p.tables calls) symbol offset count ↔
      WindowClear L (Runs.after (step L) p.tables calls) symbol offset count := by
  generalize hs : Runs.after (step L) p.tables calls = s
  constructor
  · intro h v f off hpos hfound
    obtain ⟨-, hv, -, hf, -⟩ := findSymbol_ok hfound
    obtain ⟨header, e, lo, hc, rfl⟩ := copying_of_found hp calls hs.symm hfound
    have hframed : ∀ src b', src.length = count →
        (s.fatbins f).shadow.patch (e.offset + 16 + (v.vma + offset - lo)) src = some b' →
        Framed L s (invalidateFatbin (s.withShadow f b') f) symbol v f := by
      intro src b' hlen hpatch
      obtain ⟨b'', hpatch', hcopy⟩ := hc.succeeds hlen hpos hfound
      rw [hpatch] at hpatch'
      cases hpatch'
      exact h src .default _ v f hlen hv hf hcopy
    have hparted := hc.parted hpos hframed
    have hlen : (List.replicate count (0 : UInt8)).length = count := List.length_replicate
    obtain ⟨b', hpatch, -⟩ := hc.succeeds hlen hpos hfound
    exact ⟨hparted, hc.unwritten hL hlen hpatch hparted (hframed _ b' hlen hpatch)⟩
  · intro h src kind s' v f hlen hv hf hcopy
    rcases grxMemcpyToSymbol_cases hcopy with
      ⟨rfl, -⟩ | ⟨xs, v', f', base, b', hxs, hv', -, hf', -, -, hpatch, rfl, hfound, hpos⟩
    · exact ⟨fun _ _ _ _ _ _ _ _ _ _ _ => rfl, fun _ _ _ _ _ _ _ _ _ _ => rfl⟩
    cases hxs
    rw [hv] at hv'
    cases hv'
    rw [hf] at hf'
    cases hf'
    rw [hlen] at hfound hpos
    obtain ⟨hparted, hunwritten⟩ := h v f _ hpos hfound
    obtain ⟨header, e, lo, hc, hoff⟩ := copying_of_found hp calls hs.symm hfound
    rw [hoff] at hpatch
    exact hc.framed hL hlen hpatch hparted hunwritten

/-! ### Three variables -/

/-- Two entries. The first has four bytes of payload and is linked to six addresses. -/
def packed : Blob where
  bytes := [0x47, 0x52, 0x58, 0x46, 1, 0, 2, 0, 120, 0, 0, 0, 0, 0, 0, 0] ++
    [0, 0, 0, 0, 64, 0, 0, 0, 0, 0, 0, 0, 0, 0, 0, 0] ++
    [80, 0, 0, 0, 0, 0, 0, 0, 20, 0, 0, 0, 0, 0, 0, 0] ++
    [0, 0, 0, 0, 64, 0, 0, 0, 1, 0, 0, 0, 0, 0, 0, 0] ++
    [100, 0, 0, 0, 0, 0, 0, 0, 20, 0, 0, 0, 0, 0, 0, 0] ++
    [0, 0, 0, 0, 0, 0, 0, 0, 6, 0, 0, 0, 0, 0, 0, 0, 1, 2, 3, 4] ++
    [0, 0, 0, 0, 0, 0, 0, 0, 6, 0, 0, 0, 0, 0, 0, 0, 1, 2, 3, 4]
  fits := by decide

def packedHeader : GrxFatbinHeader :=
  ⟨GRX_FATBIN_MAGIC, GRX_FATBIN_VERSION, 2, 120⟩

theorem packed_entry {i : ℕ} {e : GrxFatbinEntry} (hi : i < packedHeader.numEntries)
    (he : packed.entry i = some e) :
    i = 0 ∧ e = ⟨GRX_IMAGE_VXBIN, 64, 0, 0, 80, 20⟩ ∨
      i = 1 ∧ e = ⟨GRX_IMAGE_VXBIN, 64, 1, 0, 100, 20⟩ := by
  have h0 : packed.entry 0 = some ⟨GRX_IMAGE_VXBIN, 64, 0, 0, 80, 20⟩ := by decide +kernel
  have h1 : packed.entry 1 = some ⟨GRX_IMAGE_VXBIN, 64, 1, 0, 100, 20⟩ := by decide +kernel
  have hi' : i < 2 := hi
  interval_cases i
  · rw [h0] at he
    cases he
    exact .inl ⟨rfl, rfl⟩
  · rw [h1] at he
    cases he
    exact .inr ⟨rfl, rfl⟩

theorem packed_lo : packed.uint 80 8 = some 0 := by decide +kernel

theorem packed_wellFormed : WellFormed packed packedHeader where
  header_eq := by decide +kernel
  magic := rfl
  version := rfl
  entries := by decide
  total := by decide
  table := by decide
  payload := by
    intro i hi e he
    rcases packed_entry hi he with ⟨-, rfl⟩ | ⟨-, rfl⟩ <;> decide
  apart := by
    intro i hi j hj hij e e' he he'
    rcases packed_entry hi he with ⟨rfl, rfl⟩ | ⟨rfl, rfl⟩ <;>
      rcases packed_entry hj he' with ⟨rfl, rfl⟩ | ⟨rfl, rfl⟩
    · exact absurd rfl hij
    · decide
    · decide
    · exact absurd rfl hij
  vxbin := by
    intro i hi e he _
    rcases packed_entry hi he with ⟨-, rfl⟩ | ⟨-, rfl⟩ <;> decide
  span := by
    intro e lo hi he hlo hhi
    rcases packed_entry (by decide) he with ⟨-, rfl⟩ | ⟨h, -⟩
    · have hhi' : packed.uint 88 8 = some 6 := by decide +kernel
      rw [packed_lo] at hlo
      rw [hhi'] at hhi
      cases hlo
      cases hhi
      decide
    · cases h

/-- A constant and a variable of two bytes in the payload, and a variable of two bytes past it. -/
def packedProgram : Program where
  arrays f := if f = 0 then some packed else none
  kernels stub := if stub = 7 then some ("scale", 0) else none
  symbols symbol :=
    match symbol with
    | 1 => some { fatbin := some 0, deviceName := "taps", vma := 0, size := 2, isConstant := true }
    | 2 => some { fatbin := some 0, deviceName := "count", vma := 2, size := 2 }
    | 3 => some { fatbin := some 0, deviceName := "scratch", vma := 4, size := 2 }
    | _ => none

theorem packedProgram_sound : packedProgram.Sound := by
  intro symbol v f hv hf
  have hfat : packedProgram.arrays 0 = some packed := rfl
  simp only [packedProgram] at hv
  split at hv
  all_goals
    cases hv
  all_goals
    cases hf
    exact ⟨by decide, packed, packedHeader, hfat, packed_wellFormed⟩

theorem twoDevices_local : twoDevices.Local := by
  intro image image' address _ _ h
  show (imageAt image' address).getD 0 = (imageAt image address).getD 0
  rw [h]

theorem packed_shadow : (packedProgram.tables.fatbins 0).shadow = packed := by
  show (registerFatBinary (some packed)).shadow = packed
  rw [registerFatBinary_eq packed_wellFormed]

/-- Before the first launch, a copy to the constant changes only the constant. -/
theorem symbol_copy_framed_unloaded : CopyFramed twoDevices packedProgram.tables 1 0 2 := by
  have hlaw := symbol_copy_framed_iff twoDevices twoDevices_local packedProgram packedProgram_sound
    [] 1 0 2
  rw [Runs.after_nil] at hlaw
  apply hlaw.mpr
  intro v f off _ hfound
  obtain ⟨-, hv, -, hf, -⟩ := findSymbol_ok hfound
  cases hv
  cases hf
  refine ⟨?_, ?_⟩
  · rw [packed_shadow]
    intro header e lo hheader he hlo i hi hi0 e' he' _
    rw [packed_wellFormed.header_eq] at hheader
    cases hheader
    rcases packed_entry (by decide) he with ⟨-, rfl⟩ | ⟨h, -⟩
    · rcases packed_entry hi he' with ⟨h, -⟩ | ⟨-, rfl⟩
      · exact absurd h hi0
      · have hzero := packed_lo.symm.trans hlo
        cases hzero
        exact .inl (by decide)
    · cases h
  · intro device m hm
    have hnone : (packedProgram.tables.fatbins 0).modules = fun _ => none := by
      show (registerFatBinary (some packed)).modules = _
      rw [registerFatBinary_eq packed_wellFormed]
    rw [hnone] at hm
    cases hm

/-- The kernel of device 0 has written 9 into its variable. -/
def packedWritten : Tables :=
  Runs.after (step twoDevices) packedProgram.tables [.launch 7 0, .store 0 2 9]

/-- After a kernel wrote its variable, the copy to the constant brings the linked value back; and the
copy to the variable past the payload lands on the next entry. -/
theorem symbol_copy_framed_not :
    ¬ CopyFramed twoDevices packedWritten 1 0 2 ∧ ¬ CopyFramed twoDevices packedProgram.tables 3 0 2 := by
  constructor
  · intro h
    have hsymbols : packedWritten.symbols = packedProgram.symbols := run_symbols _
    have hok : ((grxMemcpyToSymbol packedWritten 1 (some [5, 6]) 0 .default).bind
        fun r => r.2.toOption) = some () := by decide +kernel
    have hcopy := copy_step twoDevices hok
    have hframed := h [5, 6] .default _ _ 0 rfl (by rw [hsymbols]; rfl) rfl hcopy
    have hsame := hframed.values 2 _ 0 (by decide) (by rw [hsymbols]; rfl) rfl 2 (by decide)
      (by decide) (by decide) 0
    have hbefore : valueAt twoDevices packedWritten 0 0 2 = some 9 := by decide +kernel
    rw [hbefore] at hsame
    exact absurd hsame (by decide +kernel)
  · intro h
    have hok : ((grxMemcpyToSymbol packedProgram.tables 3 (some [5, 6]) 0 .default).bind
        fun r => r.2.toOption) = some () := by decide +kernel
    have hcopy := copy_step twoDevices hok
    have hframed := h [5, 6] .default _ _ 0 rfl rfl rfl hcopy
    have hheader : (packedProgram.tables.fatbins 0).shadow.header = some packedHeader := by
      rw [packed_shadow]
      exact packed_wellFormed.header_eq
    have hentry : (packedProgram.tables.fatbins 0).shadow.entry 1 =
        some ⟨GRX_IMAGE_VXBIN, 64, 1, 0, 100, 20⟩ := by decide +kernel
    have hsame := hframed.entries packedHeader hheader 1 (by decide) (by decide) _ hentry 100
      (by decide) (by decide)
    exact absurd hsame (by decide +kernel)

end Grxcp.Runtime.Symbols
