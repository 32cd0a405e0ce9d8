import Grxcp.Runtime.SymbolImage

/-!
# A copied symbol on the next launch

`Coherent` is the invariant of a fat binary: whatever is loaded from it is what its copy gives now,
and every kernel resolved from it is of such a module. Launches load from the copy and leave it, a
symbol copy patches it and drops what was loaded, so after the copy the next launch loads the patch,
if the entry that was patched is the entry that the device chooses.
-/

namespace Grxcp.Runtime.Symbols

variable {L : Loader} {s s' : Tables} {f device stub : ℕ} {b b₀ : Blob} {header : GrxFatbinHeader}

/-! ## What each call changes -/

/-- A well-formed container is copied whole. -/
theorem registerFatBinary_eq (h : WellFormed b header) :
    registerFatBinary (some b) = { shadow := b, image := .shadow } := by
  simp only [registerFatBinary, h.header_eq, h.magic, if_true, h.total, b.first_size,
    if_pos h.size_ge]

/-- The image is chosen from the whole copy. -/
theorem imageFor_shadow {fb : FatBinary} (himage : fb.image = .shadow)
    (h : WellFormed fb.shadow header) (device : ℕ) :
    imageFor L fb device =
      match selectImage fb.shadow (L.isaFlags device) with
      | none => none
      | some (.error e) => some (.error e)
      | some (.ok image) => (fb.shadow.read image.offset image.size).map .ok := by
  have hnot : ¬ (header.magic ≠ GRX_FATBIN_MAGIC ∨ fb.shadow.size = 0) := by
    rintro (hm | ht)
    · exact hm h.magic
    · have hge := h.size_ge
      rw [ht] at hge
      exact absurd hge (by decide)
  have hblob : imageBlob fb = some (.ok fb.shadow) := by
    simp only [imageBlob, himage, imageBlob.sized, h.header_eq, h.total, if_neg hnot, Blob.first_size,
      Option.map_some]
  unfold imageFor
  rw [hblob] <;> rfl

/-- What one load changes: nothing, or one module of one fat binary. -/
theorem moduleOn_cases {r : Except GrxError VxModule} (h : moduleOn L s f device = some (s', r)) :
    s'.symbols = s.symbols ∧ s'.registry = s.registry ∧
    (∀ g, (s'.fatbins g).shadow = (s.fatbins g).shadow ∧
      (s'.fatbins g).image = (s.fatbins g).image) ∧
    (s'.fatbins = s.fatbins ∧ (∀ m, r = .ok m → (s.fatbins f).modules device = some m) ∨
      ∃ m, r = .ok m ∧ (s.fatbins f).modules device = none ∧
        imageFor L (s.fatbins f) device = some (.ok m.image) ∧
        s'.fatbins = update s.fatbins f
          ((s.fatbins f).withModule device m)) := by
  unfold moduleOn at h
  split at h
  · next m hm =>
    cases h
    refine ⟨rfl, rfl, fun g => ⟨rfl, rfl⟩, .inl ⟨rfl, ?_⟩⟩
    intro m' hm'
    cases hm'
    exact hm
  · next hm =>
    split at h
    · cases h
    · cases h
      exact ⟨rfl, rfl, fun g => ⟨rfl, rfl⟩, .inl ⟨rfl, fun m hm => by cases hm⟩⟩
    · next image himage =>
      split at h
      · cases h
        exact ⟨rfl, rfl, fun g => ⟨rfl, rfl⟩, .inl ⟨rfl, fun m hm => by cases hm⟩⟩
      · cases h
        refine ⟨rfl, rfl, ?_, .inr ⟨_, rfl, hm, himage, rfl⟩⟩
        intro g
        by_cases hg : g = f
        · subst hg
          simp
        · simp [update_ne _ _ hg]

/-- Whatever is loaded from a fat binary is what its copy gives, and what is resolved is of that. -/
structure Coherent (L : Loader) (s : Tables) (f : ℕ) : Prop where
  loaded : ∀ device m, (s.fatbins f).modules device = some m →
    imageFor L (s.fatbins f) device = some (.ok m.image)
  resolved : ∀ stub reg device k, s.registry stub = some reg → reg.fatbin = some f →
    reg.resolved device = some k → (s.fatbins f).modules device = some k.module

/-- The tables agree on what no call changes. -/
structure SameProgram (s s' : Tables) : Prop where
  symbols : s'.symbols = s.symbols
  fatbin : ∀ stub, (s'.registry stub).map Registration.fatbin = (s.registry stub).map
    Registration.fatbin

namespace SameProgram

theorem refl (s : Tables) : SameProgram s s :=
  ⟨rfl, fun _ => rfl⟩

theorem trans {s'' : Tables} (h : SameProgram s s') (h' : SameProgram s' s'') :
    SameProgram s s'' :=
  ⟨h'.symbols.trans h.symbols, fun stub => (h'.fatbin stub).trans (h.fatbin stub)⟩

end SameProgram

/-- The image of a device depends on the copy and on what the fat binary points at. -/
theorem imageFor_congr {fb fb' : FatBinary} (hshadow : fb'.shadow = fb.shadow)
    (himage : fb'.image = fb.image) (device : ℕ) : imageFor L fb' device = imageFor L fb device := by
  unfold imageFor imageBlob
  rw [hshadow, himage]

/-- A load keeps every fat binary coherent. -/
theorem Coherent.moduleOn {g : ℕ} {r : Except GrxError VxModule} (h : Coherent L s g)
    (hm : moduleOn L s f device = some (s', r)) : Coherent L s' g := by
  obtain ⟨-, hreg, hsame, hcase⟩ := moduleOn_cases hm
  rcases hcase with ⟨hfat, -⟩ | ⟨m, -, hnone, himage, hfat⟩
  · refine ⟨?_, ?_⟩
    · rw [hfat]
      exact h.loaded
    · rw [hfat, hreg]
      exact h.resolved
  · by_cases hg : g = f
    · subst hg
      have himg : ∀ d, imageFor L (s'.fatbins g) d = imageFor L (s.fatbins g) d := fun d =>
        imageFor_congr (hsame g).1 (hsame g).2 d
      refine ⟨?_, ?_⟩
      · intro d m' hm'
        rw [himg]
        rw [hfat, update_same, FatBinary.withModule_modules] at hm'
        by_cases hd : d = device
        · subst hd
          rw [update_same] at hm'
          cases hm'
          exact himage
        · rw [update_ne _ _ hd] at hm'
          exact h.loaded d m' hm'
      · intro stub reg d k hstub hf hk
        rw [hreg] at hstub
        have hold := h.resolved stub reg d k hstub hf hk
        have hd : d ≠ device := by
          rintro rfl
          rw [hnone] at hold
          cases hold
        rw [hfat, update_same, FatBinary.withModule_modules, update_ne _ _ hd]
        exact hold
    · have hsame' : s'.fatbins g = s.fatbins g := by rw [hfat, update_ne _ _ hg]
      refine ⟨?_, ?_⟩
      · rw [hsame']
        exact h.loaded
      · rw [hsame', hreg]
        exact h.resolved

/-- What a launch's lookup does: the cached kernel, a failure, or a module and a kernel of it. -/
theorem resolveRegistration_cases {r : Except GrxError VxKernel}
    (h : resolveRegistration L s stub device = some (s', r)) :
    (s' = s ∧ ∀ k, r = .ok k → ∃ reg, s.registry stub = some reg ∧ reg.resolved device = some k) ∨
    ∃ reg g, s.registry stub = some reg ∧ reg.fatbin = some g ∧
      ∃ t r', moduleOn L s g device = some (t, r') ∧
      (s' = t ∧ (∀ k, r ≠ .ok k) ∨
        ∃ m, r' = .ok m ∧ r = .ok ⟨m, reg.deviceName⟩ ∧
          s' = { t with
            registry := update t.registry stub
              (some (reg.withKernel device ⟨m, reg.deviceName⟩)) }) := by
  unfold resolveRegistration at h
  split at h
  · cases h
    exact .inl ⟨rfl, fun k hk => by cases hk⟩
  next reg hreg =>
  split at h
  · next k hk =>
    cases h
    refine .inl ⟨rfl, fun k' hk' => ?_⟩
    cases hk'
    exact ⟨reg, hreg, hk⟩
  split at h
  · cases h
    exact .inl ⟨rfl, fun k hk => by cases hk⟩
  split at h
  · cases h
    exact .inl ⟨rfl, fun k hk => by cases hk⟩
  next g hg =>
  split at h
  · cases h
  · next t e hm =>
    cases h
    exact .inr ⟨reg, g, hreg, hg, _, _, hm, .inl ⟨rfl, fun k hk => by cases hk⟩⟩
  · next t m hm =>
    split at h
    · cases h
      exact .inr ⟨reg, g, hreg, hg, _, _, hm, .inl ⟨rfl, fun k hk => by cases hk⟩⟩
    · cases h
      exact .inr ⟨reg, g, hreg, hg, _, _, hm, .inr ⟨m, rfl, rfl, rfl⟩⟩

/-- A symbol that is found: its variable, the window, and the place in its fat binary's copy. -/
theorem findSymbol_ok {symbol count offset off : ℕ} {v : Variable}
    (h : findSymbol s symbol count offset = some (.ok (v, f, off))) :
    symbol ≠ 0 ∧ s.symbols symbol = some v ∧ offset + count ≤ v.size ∧ v.fatbin = some f ∧
      ∃ base, symbolOffset (s.fatbins f).shadow v.vma v.size = some base ∧ base ≠ npos ∧
        off = add64 base offset := by
  unfold findSymbol at h
  split at h
  · cases h
  next hsymbol =>
  split at h
  · cases h
  next v' hv' =>
  split at h
  · cases h
  next hwindow =>
  split at h
  · cases h
  next f' hf' =>
  split at h
  · cases h
  next base hbase =>
  split at h
  · cases h
  next hne =>
  cases h
  exact ⟨hsymbol, hv', by omega, hf', base, hbase, hne, rfl⟩

/-- What a copy to a symbol does: nothing, or the patch of one fat binary's copy. -/
theorem grxMemcpyToSymbol_cases {symbol offset : ℕ} {src : Option (List UInt8)} {kind : MemcpyKind}
    {r : Except GrxError Unit} (h : grxMemcpyToSymbol s symbol src offset kind = some (s', r)) :
    (s' = s ∧ (r = .ok () → src = some [])) ∨
    ∃ xs v f base b', src = some xs ∧ s.symbols symbol = some v ∧ offset + xs.length ≤ v.size ∧
      v.fatbin = some f ∧ symbolOffset (s.fatbins f).shadow v.vma v.size = some base ∧
      base ≠ npos ∧ (s.fatbins f).shadow.patch (add64 base offset) xs = some b' ∧
      s' = invalidateFatbin (s.withShadow f b') f ∧
      findSymbol s symbol xs.length offset = some (.ok (v, f, add64 base offset)) ∧
      xs.length ≠ 0 := by
  unfold grxMemcpyToSymbol at h
  split at h
  · cases h
    exact .inl ⟨rfl, fun hr => by cases hr⟩
  next xs =>
  split at h
  · cases h
    exact .inl ⟨rfl, fun hr => by cases hr⟩
  split at h
  · next hlen =>
    cases h
    exact .inl ⟨rfl, fun _ => by rw [List.length_eq_zero_iff.mp hlen]⟩
  next hlen =>
  split at h
  · cases h
  · cases h
    exact .inl ⟨rfl, fun hr => by cases hr⟩
  next v f off hfind =>
  split at h
  · cases h
  next b' hpatch =>
  cases h
  obtain ⟨-, hv, hin, hf, base, hbase, hne, rfl⟩ := findSymbol_ok hfind
  exact .inr ⟨xs, v, f, base, b', rfl, hv, hin, hf, hbase, hne, hpatch, rfl, hfind, hlen⟩

@[simp] theorem withShadow_symbols (s : Tables) (f : ℕ) (b : Blob) :
    (s.withShadow f b).symbols = s.symbols := rfl

@[simp] theorem withShadow_registry (s : Tables) (f : ℕ) (b : Blob) :
    (s.withShadow f b).registry = s.registry := rfl

/-- After a copy the fat binary has the patched bytes, and no module. -/
theorem fatbins_copied (s : Tables) (f : ℕ) (b : Blob) :
    (invalidateFatbin (s.withShadow f b) f).fatbins f =
      { s.fatbins f with shadow := b, modules := fun _ => none } := by
  simp [invalidateFatbin, Tables.withShadow]

/-- The other fat binaries stay. -/
theorem fatbins_spared (s : Tables) {f g : ℕ} (b : Blob) (h : g ≠ f) :
    (invalidateFatbin (s.withShadow f b) f).fatbins g = s.fatbins g := by
  simp [invalidateFatbin, Tables.withShadow, update_ne _ _ h]

/-- The registrations lose their kernels of the fat binary, and nothing else. -/
theorem registry_copied {stub : ℕ} {reg : Registration} {b : Blob}
    (h : (invalidateFatbin (s.withShadow f b) f).registry stub = some reg) :
    ∃ reg', s.registry stub = some reg' ∧ reg.fatbin = reg'.fatbin ∧
      (reg.fatbin = some f → reg.resolved = fun _ => none) ∧ (reg.fatbin ≠ some f → reg = reg') := by
  obtain ⟨reg', hreg', heq⟩ := Option.map_eq_some_iff.mp h
  refine ⟨reg', hreg', ?_⟩
  split at heq
  · next hf =>
    subst heq
    exact ⟨rfl, fun _ => rfl, fun hno => absurd hf hno⟩
  · next hf =>
    subst heq
    exact ⟨rfl, fun hf' => absurd hf' hf, fun _ => rfl⟩

theorem SameProgram.copied (s : Tables) (f : ℕ) (b : Blob) :
    SameProgram s (invalidateFatbin (s.withShadow f b) f) := by
  refine ⟨rfl, fun stub => ?_⟩
  show ((s.registry stub).map _).map Registration.fatbin = _
  cases s.registry stub with
  | none => rfl
  | some reg =>
    simp only [Option.map_some]
    split <;> rfl

/-- A copy keeps every fat binary coherent: it drops what is of the old copy. -/
theorem Coherent.copied {g : ℕ} (h : Coherent L s g) (f : ℕ) (b : Blob) :
    Coherent L (invalidateFatbin (s.withShadow f b) f) g := by
  by_cases hg : g = f
  · subst hg
    refine ⟨?_, ?_⟩
    · intro d m hm
      rw [fatbins_copied] at hm
      cases hm
    · intro stub reg d k hstub hf hk
      obtain ⟨reg', -, -, hnone, -⟩ := registry_copied hstub
      rw [hnone hf] at hk
      cases hk
  · refine ⟨?_, ?_⟩
    · rw [fatbins_spared s b hg]
      exact h.loaded
    · intro stub reg d k hstub hf hk
      obtain ⟨reg', hreg', hfat, -, hsame⟩ := registry_copied hstub
      have hne : reg.fatbin ≠ some f := by
        rw [hf]
        intro heq
        cases heq
        exact hg rfl
      rw [fatbins_spared s b hg]
      rw [hsame hne] at hf hk
      exact h.resolved stub reg' d k hreg' hf hk

/-- A launch's lookup keeps every fat binary coherent. -/
theorem Coherent.resolveRegistration {g : ℕ} {r : Except GrxError VxKernel} (h : Coherent L s g)
    (hr : resolveRegistration L s stub device = some (s', r)) : Coherent L s' g := by
  rcases resolveRegistration_cases hr with ⟨rfl, -⟩ | ⟨reg, f, hreg, hf, t, r', hm, hcase⟩
  · exact h
  have ht := h.moduleOn hm
  have hregistry := (moduleOn_cases hm).2.1
  rcases hcase with ⟨rfl, -⟩ | ⟨m, rfl, rfl, rfl⟩
  · exact ht
  refine ⟨ht.loaded, ?_⟩
  intro stub' reg' d k hstub hf' hk
  by_cases hst : stub' = stub
  · subst hst
    simp only [update_same, Option.some.injEq] at hstub
    subst hstub
    simp only [Registration.withKernel_fatbin, Registration.withKernel_resolved] at hf' hk
    by_cases hd : d = device
    · subst hd
      rw [update_same] at hk
      cases hk
      rw [hf] at hf'
      cases hf'
      rcases (moduleOn_cases hm).2.2.2 with ⟨hfat, hcached⟩ | ⟨m', hm', -, -, hfat⟩
      · show (t.fatbins g).modules d = some m
        rw [hfat]
        exact hcached m rfl
      · cases hm'
        show (t.fatbins g).modules d = some m
        rw [hfat, update_same, FatBinary.withModule_modules, update_same]
    · rw [update_ne _ _ hd] at hk
      rw [← hregistry] at hreg
      exact ht.resolved stub' reg d k hreg hf' hk
  · simp only [update_ne _ _ hst] at hstub
    exact ht.resolved stub' reg' d k hstub hf' hk

/-- A launch's lookup leaves the copies and the program. -/
theorem resolveRegistration_same {r : Except GrxError VxKernel}
    (hr : resolveRegistration L s stub device = some (s', r)) :
    SameProgram s s' ∧ ∀ g, (s'.fatbins g).shadow = (s.fatbins g).shadow ∧
      (s'.fatbins g).image = (s.fatbins g).image := by
  rcases resolveRegistration_cases hr with ⟨rfl, -⟩ | ⟨reg, f, hreg, hf, t, r', hm, hcase⟩
  · exact ⟨.refl _, fun g => ⟨rfl, rfl⟩⟩
  obtain ⟨hsym, hregistry, hshadow, -⟩ := moduleOn_cases hm
  rcases hcase with ⟨rfl, -⟩ | ⟨m, -, -, rfl⟩
  · exact ⟨⟨hsym, fun stub => by rw [hregistry]⟩, hshadow⟩
  · refine ⟨⟨hsym, fun stub' => ?_⟩, hshadow⟩
    show (update t.registry stub _ stub').map Registration.fatbin = _
    by_cases hst : stub' = stub
    · subst hst
      rw [update_same, hreg]
      rfl
    · rw [update_ne _ _ hst, hregistry]

/-- The kernel that a launch gets is of the image that the copy gives for its device. -/
theorem Coherent.kernel_image {reg : Registration} {k : VxKernel} (h : Coherent L s f)
    (hr : Symbols.resolveRegistration L s stub device = some (s', .ok k))
    (hreg : s.registry stub = some reg) (hf : reg.fatbin = some f) :
    imageFor L (s.fatbins f) device = some (.ok k.module.image) := by
  have hsame := (resolveRegistration_same hr).2 f
  rw [← imageFor_congr hsame.1 hsame.2]
  have h' := h.resolveRegistration hr
  rcases resolveRegistration_cases hr with ⟨rfl, hcached⟩ | ⟨reg', g, hreg', hg, t, r', hm, hcase⟩
  · obtain ⟨reg', hreg', hk⟩ := hcached k rfl
    rw [hreg] at hreg'
    cases hreg'
    exact h'.loaded device k.module (h'.resolved stub reg device k hreg hf hk)
  · rw [hreg] at hreg'
    cases hreg'
    rcases hcase with ⟨-, hno⟩ | ⟨m, -, hk, rfl⟩
    · exact absurd rfl (hno k)
    · cases hk
      apply h'.loaded
      exact h'.resolved stub _ device ⟨m, reg.deviceName⟩ (update_same _ _ _) hf
        (by rw [Registration.withKernel_resolved, update_same])

/-! ## Runs -/

/-- The call leaves the bytes of a fat binary at `count` addresses: it is no copy, or one to a symbol
of another fat binary, or to other addresses. -/
def Call.Spares (p : Program) (f address count : ℕ) : Call → Prop
  | .copyTo symbol (some src) offset _ =>
      ∀ v, p.symbols symbol = some v → v.fatbin = some f →
        v.vma + offset + src.length ≤ address ∨ address + count ≤ v.vma + offset
  | _ => True

/-- The variables of a fat binary end below 2^64. -/
def Program.Bounded (p : Program) (f : ℕ) : Prop :=
  ∀ symbol v, p.symbols symbol = some v → v.fatbin = some f → v.vma + v.size < 2 ^ 64

/-- What holds of a fat binary, registered from `b₀`, in every state of a run. -/
structure Traced (L : Loader) (p : Program) (f : ℕ) (b₀ : Blob) (s : Tables) : Prop where
  program : SameProgram p.tables s
  coherent : Coherent L s f
  image : (s.fatbins f).image = .shadow
  kept : Kept b₀ (s.fatbins f).shadow

/-- The window of a copy, in a fat binary whose copy is an edit of `b₀`. -/
theorem window_eq {v : Variable} {offset count base : ℕ} (hwf : WellFormed b₀ header)
    (hkept : Kept b₀ b) (hwrap : v.vma + v.size < 2 ^ 64) (hin : offset + count ≤ v.size)
    (hbase : symbolOffset b v.vma v.size = some base) (hne : base ≠ npos) :
    ∃ e lo, b₀.entry 0 = some e ∧ b₀.uint e.offset 8 = some lo ∧ lo ≤ v.vma ∧ 16 ≤ e.size ∧
      add64 base offset = e.offset + 16 + (v.vma + offset - lo) := by
  obtain ⟨e, lo, hi, he, hkind, hlo, -, hle, -, rfl, hend⟩ :=
    symbolOffset_eq (hkept.wellFormed hwf) hwrap hbase hne
  have hsize := (hkept.wellFormed hwf).vxbin 0 (Nat.pos_of_ne_zero hwf.entries) e he hkind
  rw [hkept.first hwf] at he
  rw [hkept.lo e he] at hlo
  have hlt := b.size_lt
  refine ⟨e, lo, he, hlo, hle, hsize, ?_⟩
  unfold add64
  rw [Nat.mod_eq_of_lt (by omega)]
  omega

variable {p : Program}

namespace Traced

theorem start (h : p.arrays f = some b₀) (hwf : WellFormed b₀ header) :
    Traced L p f b₀ p.tables := by
  have hfat : p.tables.fatbins f = { shadow := b₀, image := .shadow } := by
    show registerFatBinary (p.arrays f) = _
    rw [h]
    exact registerFatBinary_eq hwf
  refine ⟨.refl _, ⟨?_, ?_⟩, by rw [hfat], ?_⟩
  · intro device m hm
    rw [hfat] at hm
    cases hm
  · intro stub reg device k hreg _ hk
    obtain ⟨name, -, rfl⟩ := Option.map_eq_some_iff.mp hreg
    cases hk
  · rw [hfat]
    exact Kept.refl b₀

theorem launch {r : Except GrxError VxKernel} (h : Traced L p f b₀ s)
    (hr : resolveRegistration L s stub device = some (s', r)) : Traced L p f b₀ s' := by
  obtain ⟨hsame, hshadow⟩ := resolveRegistration_same hr
  refine ⟨h.program.trans hsame, h.coherent.resolveRegistration hr, ?_, ?_⟩
  · rw [(hshadow f).2]
    exact h.image
  · rw [(hshadow f).1]
    exact h.kept

theorem store (h : Traced L p f b₀ s) (memory : ℕ → ℕ → UInt8) :
    Traced L p f b₀ { s with memory } :=
  ⟨⟨h.program.symbols, h.program.fatbin⟩, ⟨h.coherent.loaded, h.coherent.resolved⟩, h.image, h.kept⟩

theorem copied {symbol offset base g : ℕ} {xs : List UInt8} {v : Variable} {b' : Blob}
    (h : Traced L p f b₀ s) (hwf : WellFormed b₀ header) (hbound : p.Bounded f)
    (hv : s.symbols symbol = some v) (hin : offset + xs.length ≤ v.size) (hf : v.fatbin = some g)
    (hbase : symbolOffset (s.fatbins g).shadow v.vma v.size = some base) (hne : base ≠ npos)
    (hpatch : (s.fatbins g).shadow.patch (add64 base offset) xs = some b') :
    Traced L p f b₀ (invalidateFatbin (s.withShadow g b') g) := by
  refine ⟨h.program.trans (.copied s g b'), h.coherent.copied g b', ?_, ?_⟩
  · by_cases hg : f = g
    · subst hg
      rw [fatbins_copied]
      exact h.image
    · rw [fatbins_spared s b' hg]
      exact h.image
  · by_cases hg : f = g
    · subst hg
      have hwrap := hbound symbol v (by rw [← hv, h.program.symbols]; rfl) hf
      obtain ⟨e, lo, he, -, -, -, hoff⟩ := window_eq hwf h.kept hwrap hin hbase hne
      rw [fatbins_copied]
      apply h.kept.trans _ hwf
      apply Kept.patch (h.kept.wellFormed hwf) (by rw [h.kept.first hwf, he]) _ hpatch
      omega
    · rw [fatbins_spared s b' hg]
      exact h.kept

theorem copyTo {symbol offset : ℕ} {src : Option (List UInt8)} {kind : MemcpyKind}
    {r : Except GrxError Unit} (h : Traced L p f b₀ s) (hwf : WellFormed b₀ header)
    (hbound : p.Bounded f) (hr : grxMemcpyToSymbol s symbol src offset kind = some (s', r)) :
    Traced L p f b₀ s' := by
  rcases grxMemcpyToSymbol_cases hr with
    ⟨rfl, -⟩ | ⟨xs, v, g, base, b', -, hv, hin, hf, hbase, hne, hpatch, rfl, -⟩
  · exact h
  · exact h.copied hwf hbound hv hin hf hbase hne hpatch

/-- One call keeps what holds of the fat binary. -/
theorem step (h : Traced L p f b₀ s) (hwf : WellFormed b₀ header) (hbound : p.Bounded f) (c : Call) :
    Traced L p f b₀ (step L s c) := by
  cases c with
  | launch stub device =>
    show Traced L p f b₀ (((resolveRegistration L s stub device).map Prod.fst).getD s)
    cases hr : resolveRegistration L s stub device with
    | none => exact h
    | some res => exact h.launch hr
  | store module address x => exact h.store _
  | copyTo symbol src offset kind =>
    show Traced L p f b₀ (((grxMemcpyToSymbol s symbol src offset kind).map Prod.fst).getD s)
    cases hr : grxMemcpyToSymbol s symbol src offset kind with
    | none => exact h
    | some res => exact h.copyTo hwf hbound hr

/-- A run keeps it. -/
theorem run (h : Traced L p f b₀ s) (hwf : WellFormed b₀ header) (hbound : p.Bounded f)
    (calls : List Call) : Traced L p f b₀ (Runs.after (Symbols.step L) s calls) :=
  Runs.invariant_always (fun _ c ht => ht.step hwf hbound c) s calls h

end Traced

/-- No call changes the variables. -/
theorem step_symbols (s : Tables) (c : Call) : (step L s c).symbols = s.symbols := by
  cases c with
  | launch stub device =>
    show (((resolveRegistration L s stub device).map Prod.fst).getD s).symbols = _
    cases hr : resolveRegistration L s stub device with
    | none => rfl
    | some res => exact (resolveRegistration_same hr).1.symbols
  | store module address x => rfl
  | copyTo symbol src offset kind =>
    show (((grxMemcpyToSymbol s symbol src offset kind).map Prod.fst).getD s).symbols = _
    cases hr : grxMemcpyToSymbol s symbol src offset kind with
    | none => rfl
    | some res =>
      obtain ⟨s', r⟩ := res
      rcases grxMemcpyToSymbol_cases hr with ⟨rfl, -⟩ | ⟨_, _, _, _, _, -, -, -, -, -, -, -, rfl, -⟩
      · rfl
      · rfl

theorem run_symbols (calls : List Call) :
    (Runs.after (step L) p.tables calls).symbols = p.symbols :=
  Runs.invariant_always (I := fun s => s.symbols = p.symbols)
    (fun s c hs => (step_symbols s c).trans hs) p.tables calls rfl

/-- The bytes of the first entry at addresses that a call spares. -/
theorem Traced.spared {c : Call} {e : GrxFatbinEntry} {lo address count : ℕ}
    (h : Traced L p f b₀ s) (hwf : WellFormed b₀ header) (hbound : p.Bounded f)
    (he : b₀.entry 0 = some e) (hlo : b₀.uint e.offset 8 = some lo) (hle : lo ≤ address)
    (hc : c.Spares p f address count) {k : ℕ} (hk : k < count) :
    ((Symbols.step L s c).fatbins f).shadow.bytes[e.offset + 16 + (address - lo) + k]? =
      (s.fatbins f).shadow.bytes[e.offset + 16 + (address - lo) + k]? := by
  cases c with
  | launch stub device =>
    show ((((resolveRegistration L s stub device).map Prod.fst).getD s).fatbins f).shadow.bytes[_]? = _
    cases hr : resolveRegistration L s stub device with
    | none => rfl
    | some res =>
      show (res.1.fatbins f).shadow.bytes[_]? = _
      rw [((resolveRegistration_same hr).2 f).1]
  | store module address x => rfl
  | copyTo symbol src offset kind =>
    show ((((grxMemcpyToSymbol s symbol src offset kind).map Prod.fst).getD s).fatbins
      f).shadow.bytes[_]? = _
    cases hr : grxMemcpyToSymbol s symbol src offset kind with
    | none => rfl
    | some res =>
      obtain ⟨s', r⟩ := res
      show (s'.fatbins f).shadow.bytes[_]? = _
      rcases grxMemcpyToSymbol_cases hr with
        ⟨rfl, -⟩ | ⟨xs, v, g, base, b', rfl, hv, hin, hf, hbase, hne, hpatch, rfl, -⟩
      · rfl
      by_cases hg : f = g
      · subst hg
        have hv' : p.symbols symbol = some v := by
          rw [← hv, h.program.symbols]
          rfl
        obtain ⟨e', lo', he', hlo', hle', -, hoff⟩ :=
          window_eq hwf h.kept (hbound symbol v hv' hf) hin hbase hne
        rw [he] at he'
        cases he'
        rw [hlo] at hlo'
        cases hlo'
        have hapart := hc v hv' hf
        rw [fatbins_copied]
        apply Blob.patch_outside hpatch
        omega
      · rw [fatbins_spared s b' hg]

/-- The same over a run. -/
theorem Traced.spared_run {calls : List Call} {e : GrxFatbinEntry} {lo address count : ℕ}
    (h : Traced L p f b₀ s) (hwf : WellFormed b₀ header) (hbound : p.Bounded f)
    (he : b₀.entry 0 = some e) (hlo : b₀.uint e.offset 8 = some lo) (hle : lo ≤ address)
    (hcalls : ∀ c ∈ calls, c.Spares p f address count) {k : ℕ} (hk : k < count) :
    ((Runs.after (Symbols.step L) s calls).fatbins f).shadow.bytes[e.offset + 16 + (address - lo) + k]? =
      (s.fatbins f).shadow.bytes[e.offset + 16 + (address - lo) + k]? := by
  induction calls generalizing s with
  | nil => rfl
  | cons c calls ih =>
    rw [Runs.after_cons, ih (h.step hwf hbound c) fun c' hc' =>
      hcalls c' (List.mem_cons_of_mem c hc')]
    exact h.spared hwf hbound he hlo hle (hcalls c List.mem_cons_self) hk

/-- The bytes from `address` on that a copy puts into the first entry are bytes of the image of a
device: the first entry is its choice, and it has them in its payload. -/
def Reaches (b : Blob) (header : GrxFatbinHeader) (isaFlags : Except VxError ℕ)
    (address count : ℕ) : Prop :=
  ∃ isa e lo, isaFlags = .ok isa ∧ b.entry 0 = some e ∧
    Best b (deviceExt isa) header.numEntries (some e) ∧ b.uint e.offset 8 = some lo ∧
    16 + (address + count - lo) ≤ e.size

/-- The image of a device that the bytes reach has them. -/
theorem Reaches.holds {isaFlags : Except VxError ℕ} {address lo off : ℕ} {xs : List UInt8}
    {b' : Blob} {e : GrxFatbinEntry} (h : Reaches b₀ header isaFlags address xs.length)
    (hwf : WellFormed b₀ header) (hkept : Kept b₀ b') (he : b₀.entry 0 = some e)
    (hlo : b₀.uint e.offset 8 = some lo) (hle : lo ≤ address) (h16 : 16 ≤ e.size)
    (hoff : off = e.offset + 16 + (address - lo))
    (hbytes : ∀ k < xs.length, b'.bytes[off + k]? = xs[k]?) :
    ∃ image, selectImage b' isaFlags = some (.ok ⟨e.offset, e.size⟩) ∧
      b'.read e.offset e.size = some image ∧ Holds image address xs := by
  obtain ⟨isa, e', lo', rfl, he', hbest, hlo', hend⟩ := h
  rw [he] at he'
  cases he'
  rw [hlo] at hlo'
  cases hlo'
  have hin := (hwf.payload 0 (Nat.pos_of_ne_zero hwf.entries) e he).2
  obtain ⟨image, himage⟩ := Option.isSome_iff_exists.mp
    ((b'.read_isSome e.offset e.size).mpr (by rw [hkept.size]; exact hin))
  refine ⟨image, ?_, himage, ?_⟩
  · rw [hkept.selectImage]
    exact hwf.selectImage_best hbest
  · intro k hk
    have hlo'' : b'.uint e.offset 8 = some lo := by rw [hkept.lo e he, hlo]
    rw [imageAt_read himage (by omega) hlo'' (by omega) (by omega), ← hbytes k hk, hoff]
    congr 1
    omega

/-! ## The law of a symbol copy -/

/-- What a successful copy of `src` to a variable leaves in the copy of its fat binary. -/
theorem Traced.copied_bytes {symbol offset : ℕ} {src : List UInt8} {kind : MemcpyKind}
    {v : Variable} (h : Traced L p f b₀ s) (hwf : WellFormed b₀ header) (hbound : p.Bounded f)
    (hv : p.symbols symbol = some v) (hf : v.fatbin = some f) (hsrc : src ≠ [])
    (hr : grxMemcpyToSymbol s symbol (some src) offset kind = some (s', .ok ())) :
    ∃ e lo base, b₀.entry 0 = some e ∧ b₀.uint e.offset 8 = some lo ∧ lo ≤ v.vma + offset ∧
      16 ≤ e.size ∧ symbol ≠ 0 ∧ offset + src.length ≤ v.size ∧
      symbolOffset b₀ v.vma v.size = some base ∧ base ≠ npos ∧
      add64 base offset = e.offset + 16 + (v.vma + offset - lo) ∧
      ∀ k < src.length,
        (s'.fatbins f).shadow.bytes[e.offset + 16 + (v.vma + offset - lo) + k]? = src[k]? := by
  rcases grxMemcpyToSymbol_cases hr with
    ⟨-, hnil⟩ | ⟨xs, v', g, base, b', hxs, hv', hin, hf', hbase, hne, hpatch, rfl, hfind, -⟩
  · cases hnil rfl
    exact absurd rfl hsrc
  cases hxs
  have hsym : s.symbols symbol = some v := by
    rw [h.program.symbols, ← hv]
    rfl
  rw [hsym] at hv'
  cases hv'
  rw [hf] at hf'
  cases hf'
  have hwrap := hbound symbol v hv hf
  obtain ⟨e, lo, he, hlo, hle, h16, hoff⟩ := window_eq hwf h.kept hwrap hin hbase hne
  have hsymbol : symbol ≠ 0 := by
    rintro rfl
    cases hfind
  rw [h.kept.symbolOffset hwf] at hbase
  refine ⟨e, lo, base, he, hlo, by omega, h16, hsymbol, hin, hbase, hne, hoff, ?_⟩
  intro k hk
  rw [fatbins_copied, ← hoff]
  exact Blob.patch_within hpatch hk

/-- After a successful copy to a symbol of a fat binary, and any calls that spare its window, the image
behind a kernel launched from that fat binary has the copied bytes at the symbol, on every device that
they reach; and a constant symbol reads them back. -/
theorem copied_symbol_visible (L : Loader) (p : Program) {f : ℕ} {b₀ : Blob}
    {header : GrxFatbinHeader} (harray : p.arrays f = some b₀) (hwf : WellFormed b₀ header)
    (hbound : p.Bounded f) (calls rest : List Call) {symbol offset : ℕ} {src : List UInt8}
    {kind : MemcpyKind} {v : Variable} {s' : Tables}
    (hv : p.symbols symbol = some v) (hf : v.fatbin = some f)
    (hcopy : grxMemcpyToSymbol (Runs.after (step L) p.tables calls) symbol (some src) offset kind =
      some (s', .ok ()))
    (hrest : ∀ c ∈ rest, c.Spares p f (v.vma + offset) src.length) :
    (∀ stub name device k t, p.kernels stub = some (name, f) →
      Reaches b₀ header (L.isaFlags device) (v.vma + offset) src.length →
      resolveRegistration L (Runs.after (step L) s' rest) stub device = some (t, .ok k) →
      Holds k.module.image (v.vma + offset) src) ∧
    (v.isConstant = true → ∀ kind', kind' = .deviceToHost ∨ kind' = .default →
      grxMemcpyFromSymbol (Runs.after (step L) s' rest) true symbol src.length offset kind' =
        some (.ok src)) := by
  have htr := (Traced.start (L := L) harray hwf).run hwf hbound calls
  have htr' := htr.copyTo hwf hbound hcopy
  have htr'' := htr'.run hwf hbound rest
  by_cases hsrc : src = []
  · subst hsrc
    refine ⟨fun stub name device k t _ _ _ j hj => absurd hj (Nat.not_lt_zero j), ?_⟩
    rintro - kind' hkind
    rcases hkind with rfl | rfl <;> rfl
  obtain ⟨e, lo, base, he, hlo, hle, h16, hsymbol, hin, hbase, hne, hadd, hcopied⟩ :=
    htr.copied_bytes hwf hbound hv hf hsrc hcopy
  have hbytes : ∀ k < src.length, ((Runs.after (step L) s' rest).fatbins f).shadow.bytes[
      e.offset + 16 + (v.vma + offset - lo) + k]? = src[k]? := by
    intro k hk
    rw [htr'.spared_run hwf hbound he hlo hle hrest hk]
    exact hcopied k hk
  constructor
  · intro stub name device k t hstub hreach hk
    have hfatbin := htr''.program.fatbin stub
    have hreg : p.tables.registry stub = some { deviceName := name, fatbin := some f } := by
      show (p.kernels stub).map _ = _
      rw [hstub]
      rfl
    rw [hreg] at hfatbin
    obtain ⟨reg, hreg', hregf⟩ := Option.map_eq_some_iff.mp hfatbin
    have himage := htr''.coherent.kernel_image hk hreg' hregf
    obtain ⟨image, hselect, hread, hholds⟩ :=
      hreach.holds hwf htr''.kept he hlo hle h16 rfl hbytes
    rw [imageFor_shadow htr''.image (htr''.kept.wellFormed hwf), hselect] at himage
    simp only [hread, Option.map_some, Option.some.injEq, Except.ok.injEq] at himage
    rw [← himage]
    exact hholds
  · intro hconst kind' hkind
    have hsym : (Runs.after (step L) s' rest).symbols symbol = some v := by
      rw [htr''.program.symbols, ← hv]
      rfl
    have hbase' : symbolOffset ((Runs.after (step L) s' rest).fatbins f).shadow v.vma v.size =
        some base := by rw [htr''.kept.symbolOffset hwf, hbase]
    have hfind : findSymbol (Runs.after (step L) s' rest) symbol src.length offset =
        some (.ok (v, f, e.offset + 16 + (v.vma + offset - lo))) := by
      have hwindow : ¬ (v.size < offset ∨ v.size - offset < src.length) := by omega
      simp only [findSymbol, if_neg hsymbol, hsym, if_neg hwindow, hf, hbase', if_neg hne, hadd]
    have hread := Blob.read_of_bytes hsrc hbytes
    have hkind' : ¬ (kind' ≠ .deviceToHost ∧ kind' ≠ .default) := by
      rintro ⟨h1, h2⟩
      rcases hkind with rfl | rfl
      · exact h1 rfl
      · exact h2 rfl
    have hlen : src.length ≠ 0 := fun h => hsrc (List.length_eq_zero_iff.mp h)
    simp [grxMemcpyFromSymbol, hkind', hlen, hfind, hconst, hread]

/-! ### Two entries -/

/-- A portable entry, and one that needs an extension; each has one symbol of two bytes at address 0. -/
def twoEntries : Blob where
  bytes := [0x47, 0x52, 0x58, 0x46, 1, 0, 2, 0, 116, 0, 0, 0, 0, 0, 0, 0] ++
    [0, 0, 0, 0, 64, 0, 0, 0, 0, 0, 0, 0, 0, 0, 0, 0] ++
    [80, 0, 0, 0, 0, 0, 0, 0, 18, 0, 0, 0, 0, 0, 0, 0] ++
    [0, 0, 0, 0, 64, 0, 0, 0, 1, 0, 0, 0, 0, 0, 0, 0] ++
    [98, 0, 0, 0, 0, 0, 0, 0, 18, 0, 0, 0, 0, 0, 0, 0] ++
    [0, 0, 0, 0, 0, 0, 0, 0, 2, 0, 0, 0, 0, 0, 0, 0, 0, 0] ++
    [0, 0, 0, 0, 0, 0, 0, 0, 2, 0, 0, 0, 0, 0, 0, 0, 0, 0]
  fits := by decide

def twoEntriesHeader : GrxFatbinHeader :=
  ⟨GRX_FATBIN_MAGIC, GRX_FATBIN_VERSION, 2, 116⟩

def portableEntry : GrxFatbinEntry :=
  ⟨GRX_IMAGE_VXBIN, 64, 0, 0, 80, 18⟩

def extendedEntry : GrxFatbinEntry :=
  ⟨GRX_IMAGE_VXBIN, 64, 1, 0, 98, 18⟩

theorem twoEntries_entry {i : ℕ} {e : GrxFatbinEntry} (hi : i < twoEntriesHeader.numEntries)
    (he : twoEntries.entry i = some e) : i = 0 ∧ e = portableEntry ∨ i = 1 ∧ e = extendedEntry := by
  have h0 : twoEntries.entry 0 = some portableEntry := by decide
  have h1 : twoEntries.entry 1 = some extendedEntry := by decide
  have hi' : i < 2 := hi
  interval_cases i
  · rw [h0] at he
    cases he
    exact .inl ⟨rfl, rfl⟩
  · rw [h1] at he
    cases he
    exact .inr ⟨rfl, rfl⟩

theorem twoEntries_wellFormed : WellFormed twoEntries twoEntriesHeader where
  header_eq := by decide
  magic := rfl
  version := rfl
  entries := by decide
  total := by decide
  table := by decide
  payload := by
    intro i hi e he
    rcases twoEntries_entry hi he with ⟨-, rfl⟩ | ⟨-, rfl⟩ <;> decide
  apart := by
    intro i hi j hj hij e e' he he'
    rcases twoEntries_entry hi he with ⟨rfl, rfl⟩ | ⟨rfl, rfl⟩ <;>
      rcases twoEntries_entry hj he' with ⟨rfl, rfl⟩ | ⟨rfl, rfl⟩
    · exact absurd rfl hij
    · decide
    · decide
    · exact absurd rfl hij
  vxbin := by
    intro i hi e he _
    rcases twoEntries_entry hi he with ⟨-, rfl⟩ | ⟨-, rfl⟩ <;> decide
  span := by
    intro e lo hi he hlo hhi
    rcases twoEntries_entry (by decide) he with ⟨-, rfl⟩ | ⟨h, -⟩
    · have hlo' : twoEntries.uint portableEntry.offset 8 = some 0 := by decide
      have hhi' : twoEntries.uint (portableEntry.offset + 8) 8 = some 2 := by decide
      rw [hlo'] at hlo
      rw [hhi'] at hhi
      cases hlo
      cases hhi
      decide
    · cases h

/-- A constant of two bytes, and a kernel. -/
def twoEntriesProgram : Program where
  arrays f := if f = 0 then some twoEntries else none
  kernels stub := if stub = 7 then some ("scale", 0) else none
  symbols symbol :=
    if symbol = 1 then some { fatbin := some 0, deviceName := "taps", size := 2, isConstant := true }
    else none

/-- Devices 0 and 1: the first has the extension, the second has not. -/
def twoDevices : Loader where
  isaFlags device := .ok (if device = 0 then 2 ^ 32 else 0)
  place image address := (imageAt image address).getD 0

/-- The tables after the copy of two bytes to the constant. -/
def twoEntriesCopied : Tables :=
  step twoDevices twoEntriesProgram.tables (.copyTo 1 (some [5, 6]) 0 .hostToDevice)

/-- A call that has a result, from what can be computed of it. -/
theorem exists_of_map {α β : Type*} {x : Option (α × Except GrxError β)} {y : β}
    (h : (x.bind fun r => r.2.toOption) = some y) : ∃ a, x = some (a, .ok y) := by
  obtain ⟨⟨a, r⟩, rfl, hr⟩ := Option.bind_eq_some_iff.mp h
  cases r with
  | error e => cases hr
  | ok z =>
    cases hr
    exact ⟨a, rfl⟩

/-- A copy that succeeds is a step. -/
theorem copy_step (L : Loader) {symbol offset : ℕ} {src : Option (List UInt8)} {kind : MemcpyKind}
    (h : ((grxMemcpyToSymbol s symbol src offset kind).bind fun r => r.2.toOption) = some ()) :
    grxMemcpyToSymbol s symbol src offset kind =
      some (step L s (.copyTo symbol src offset kind), .ok ()) := by
  obtain ⟨s', hs'⟩ := exists_of_map h
  simp only [step, hs', Option.map_some, Option.getD_some]

theorem twoEntriesCopied_eq :
    grxMemcpyToSymbol twoEntriesProgram.tables 1 (some [5, 6]) 0 .hostToDevice =
      some (twoEntriesCopied, .ok ()) :=
  copy_step twoDevices (by decide +kernel)

theorem twoEntries_bounded : twoEntriesProgram.Bounded 0 := by
  intro symbol v hv _
  simp only [twoEntriesProgram] at hv
  split at hv
  · cases hv
    decide
  · cases hv

/-- Without the extension, the first entry is the choice. -/
theorem twoEntries_reaches :
    Reaches twoEntries twoEntriesHeader (twoDevices.isaFlags 1) (0 + 0) 2 := by
  refine ⟨0, portableEntry, 0, rfl, by decide, ⟨⟨0, by decide, by decide, ?_⟩, ?_, ?_⟩, by decide,
    by decide⟩
  · intro k hk
    omega
  · exact ⟨rfl, fun k hk => by simp [portableEntry] at hk⟩
  · intro k hk e he hrun
    rcases twoEntries_entry hk he with ⟨-, rfl⟩ | ⟨-, rfl⟩
    · exact le_rfl
    · exact absurd (hrun.2 0 (by decide)) (by decide)

/-- On the device without the extension, the launch after the copy has the bytes, and they are read
back. -/
theorem copied_symbol_visible_portable :
    (∃ t k, resolveRegistration twoDevices twoEntriesCopied 7 1 = some (t, .ok k) ∧
      Holds k.module.image 0 [5, 6]) ∧
    grxMemcpyFromSymbol twoEntriesCopied true 1 2 0 .deviceToHost = some (.ok [5, 6]) := by
  have hlaw := copied_symbol_visible twoDevices twoEntriesProgram rfl twoEntries_wellFormed
    twoEntries_bounded [] [] rfl rfl twoEntriesCopied_eq (by simp)
  obtain ⟨t, ht⟩ := exists_of_map (x := resolveRegistration twoDevices twoEntriesCopied 7 1)
    (y := ⟨⟨0, 1, [0, 0, 0, 0, 0, 0, 0, 0, 2, 0, 0, 0, 0, 0, 0, 0, 5, 6]⟩, "scale"⟩)
    (by decide +kernel)
  rw [Runs.after_nil] at hlaw
  exact ⟨⟨t, _, ht, hlaw.1 7 "scale" 1 _ t rfl twoEntries_reaches ht⟩, hlaw.2 rfl _ (.inl rfl)⟩

/-- On the device with the extension, the launch after the copy loads the entry that was not
patched. -/
theorem copied_symbol_visible_not :
    ∃ s' t k,
      grxMemcpyToSymbol twoEntriesProgram.tables 1 (some [5, 6]) 0 .hostToDevice =
        some (s', .ok ()) ∧
      resolveRegistration twoDevices s' 7 0 = some (t, .ok k) ∧
      ¬ Holds k.module.image 0 [5, 6] := by
  obtain ⟨t, ht⟩ := exists_of_map (x := resolveRegistration twoDevices twoEntriesCopied 7 0)
    (y := ⟨⟨0, 0, [0, 0, 0, 0, 0, 0, 0, 0, 2, 0, 0, 0, 0, 0, 0, 0, 0, 0]⟩, "scale"⟩)
    (by decide +kernel)
  refine ⟨twoEntriesCopied, t, _, twoEntriesCopied_eq, ht, ?_⟩
  intro h
  have hfirst := h 0 (by decide)
  exact absurd hfirst (by decide +kernel)

end Grxcp.Runtime.Symbols
