import Grxcp.Runtime.FatBinary

/-!
# Image selection

What `select_image` returns of any bytes. The loop keeps the first of the best entries it has passed
(`Best`), and stops at an entry that its bound check refuses. Two things are outside what it checks:
the entry table is not held against the blob's size, and the sum of an entry's offset and size is
taken modulo 2^64.
-/

namespace Grxcp.Runtime

/-! ## Entries -/

namespace GrxFatbinEntry

/-- The bound check passes. -/
def Passes (totalSize : ℕ) (e : GrxFatbinEntry) : Prop :=
  add64 e.offset e.size ≤ totalSize

/-- A ready-to-run entry whose required extensions the device all has. -/
def Runs (deviceExt : ℕ) (e : GrxFatbinEntry) : Prop :=
  e.kind = GRX_IMAGE_VXBIN ∧ ∀ k, e.requiredIsa.testBit k → deviceExt.testBit k

end GrxFatbinEntry

/-- A mask test asks for every bit of the mask. -/
theorem and_eq_left_iff (r x : ℕ) : r &&& x = r ↔ ∀ k, r.testBit k → x.testBit k := by
  constructor
  · intro h k hk
    have hbit : (r &&& x).testBit k = true := by rw [h]; exact hk
    rw [Nat.testBit_and, hk, Bool.true_and] at hbit
    exact hbit
  · intro h
    apply Nat.eq_of_testBit_eq
    intro k
    rw [Nat.testBit_and]
    by_cases hk : r.testBit k
    · rw [hk, h k hk]
      rfl
    · simp [hk]

/-- `best` is the first of the most demanding entries before `i` that run. -/
def Best (b : Blob) (deviceExt i : ℕ) : Option GrxFatbinEntry → Prop
  | none => ∀ j < i, ∀ e, b.entry j = some e → ¬ e.Runs deviceExt
  | some best =>
    (∃ j < i, b.entry j = some best ∧
      ∀ k < j, ∀ e, b.entry k = some e → e.Runs deviceExt →
        popcount e.requiredIsa < popcount best.requiredIsa) ∧
    best.Runs deviceExt ∧
    ∀ k < i, ∀ e, b.entry k = some e → e.Runs deviceExt →
      popcount e.requiredIsa ≤ popcount best.requiredIsa

/-- `best_score`, of `best`. -/
def score : Option GrxFatbinEntry → ℤ
  | none => -1
  | some best => popcount best.requiredIsa

variable {b : Blob} {total ext : ℕ}

namespace Best

theorem start : Best b ext 0 none := by
  intro j hj
  omega

/-- An entry that does not run leaves the choice. -/
theorem skip {i : ℕ} {best : Option GrxFatbinEntry} {e : GrxFatbinEntry} (h : Best b ext i best)
    (he : b.entry i = some e) (hrun : ¬ e.Runs ext) : Best b ext (i + 1) best := by
  cases best with
  | none =>
    intro j hj e' he'
    rcases Nat.lt_succ_iff_lt_or_eq.mp hj with hj | rfl
    · exact h j hj e' he'
    · rw [he] at he'
      cases he'
      exact hrun
  | some best =>
    obtain ⟨⟨j, hj, hbest⟩, hruns, hmax⟩ := h
    refine ⟨⟨j, by omega, hbest⟩, hruns, ?_⟩
    intro k hk e' he' hrun'
    rcases Nat.lt_succ_iff_lt_or_eq.mp hk with hk | rfl
    · exact hmax k hk e' he' hrun'
    · rw [he] at he'
      cases he'
      exact absurd hrun' hrun

/-- An entry of a better score is the choice. -/
theorem take {i : ℕ} {best : Option GrxFatbinEntry} {e : GrxFatbinEntry} (h : Best b ext i best)
    (he : b.entry i = some e) (hrun : e.Runs ext) (hlt : score best < popcount e.requiredIsa) :
    Best b ext (i + 1) (some e) := by
  have hbefore : ∀ k < i, ∀ e', b.entry k = some e' → e'.Runs ext →
      popcount e'.requiredIsa < popcount e.requiredIsa := by
    intro k hk e' he' hrun'
    cases best with
    | none => exact absurd hrun' (h k hk e' he')
    | some best =>
      have hle := h.2.2 k hk e' he' hrun'
      have hlt' : (popcount best.requiredIsa : ℤ) < popcount e.requiredIsa := hlt
      omega
  refine ⟨⟨i, by omega, he, hbefore⟩, hrun, ?_⟩
  intro k hk e' he' hrun'
  rcases Nat.lt_succ_iff_lt_or_eq.mp hk with hk | rfl
  · exact (hbefore k hk e' he' hrun').le
  · rw [he] at he'
    cases he'
    exact le_rfl

/-- An entry of no better score leaves the choice. -/
theorem keep {i : ℕ} {best : Option GrxFatbinEntry} {e : GrxFatbinEntry} (h : Best b ext i best)
    (he : b.entry i = some e) (hge : ¬ score best < popcount e.requiredIsa) :
    Best b ext (i + 1) best := by
  cases best with
  | none =>
    have hneg : (-1 : ℤ) < popcount e.requiredIsa := by omega
    exact absurd hneg hge
  | some best =>
    have hle : ¬ (popcount best.requiredIsa : ℤ) < popcount e.requiredIsa := hge
    obtain ⟨⟨j, hj, hbest⟩, hruns, hmax⟩ := h
    refine ⟨⟨j, by omega, hbest⟩, hruns, ?_⟩
    intro k hk e' he' hrun'
    rcases Nat.lt_succ_iff_lt_or_eq.mp hk with hk | rfl
    · exact hmax k hk e' he' hrun'
    · rw [he] at he'
      cases he'
      omega

/-- There is one first best entry. -/
theorem unique {i : ℕ} {e e' : GrxFatbinEntry} (h : Best b ext i (some e))
    (h' : Best b ext i (some e')) : e = e' := by
  obtain ⟨⟨j, hj, he, hfirst⟩, hrun, hmax⟩ := h
  obtain ⟨⟨j', hj', he', hfirst'⟩, hrun', hmax'⟩ := h'
  have hle := hmax j' hj' e' he' hrun'
  have hle' := hmax' j hj e he hrun
  rcases Nat.lt_trichotomy j j' with hlt | rfl | hlt
  · have hless := hfirst' j hlt e he hrun
    omega
  · rw [he] at he'
    cases he'
    rfl
  · have hless := hfirst j' hlt e' he' hrun'
    omega

end Best

/-! ## The loop -/

/-- One turn of the loop, at an entry that it can read and that passes. -/
theorem selectLoop_succ (left : ℕ) {i : ℕ} {best : Option GrxFatbinEntry} {e : GrxFatbinEntry}
    (h : Best b ext i best) (he : b.entry i = some e) (hpass : e.Passes total) :
    ∃ best', Best b ext (i + 1) best' ∧
      selectLoop b total ext (left + 1) i best (score best) =
        selectLoop b total ext left (i + 1) best' (score best') := by
  have hbound : ¬ total < add64 e.offset e.size := by
    unfold GrxFatbinEntry.Passes at hpass
    omega
  simp only [selectLoop, he, if_neg hbound]
  by_cases hisa : e.requiredIsa &&& ext = e.requiredIsa
  · rw [if_neg (not_not.mpr hisa)]
    by_cases hkind : e.kind = GRX_IMAGE_VXBIN
    · rw [if_neg (not_not.mpr hkind)]
      have hrun : e.Runs ext := ⟨hkind, (and_eq_left_iff _ _).mp hisa⟩
      by_cases hlt : score best < popcount e.requiredIsa
      · rw [if_pos hlt]
        exact ⟨some e, h.take he hrun hlt, rfl⟩
      · rw [if_neg hlt]
        exact ⟨best, h.keep he hlt, rfl⟩
    · rw [if_pos hkind]
      exact ⟨best, h.skip he fun hrun => hkind hrun.1, rfl⟩
  · rw [if_pos hisa]
    exact ⟨best, h.skip he fun hrun => hisa ((and_eq_left_iff _ _).mpr hrun.2), rfl⟩

/-- The loop comes to entry `i`: the entries before it can be read and pass. -/
def Comes (b : Blob) (total i : ℕ) : Prop :=
  ∀ j < i, ∃ e, b.entry j = some e ∧ e.Passes total

/-- What the loop makes of the entries from `i` on: it reads outside the blob, it stops at an entry
that does not pass, or it has passed them all and kept the best. -/
theorem selectLoop_cases (left i : ℕ) (best : Option GrxFatbinEntry) (h : Best b ext i best)
    (hcomes : Comes b total i) :
    (∃ k, i ≤ k ∧ k < i + left ∧ Comes b total k ∧ b.entry k = none ∧
      selectLoop b total ext left i best (score best) = none) ∨
    (∃ k e, i ≤ k ∧ k < i + left ∧ Comes b total k ∧ b.entry k = some e ∧ ¬ e.Passes total ∧
      selectLoop b total ext left i best (score best) = some (.error .invalidKernelImage)) ∨
    (∃ best', Comes b total (i + left) ∧ Best b ext (i + left) best' ∧
      selectLoop b total ext left i best (score best) = some (.ok best')) := by
  induction left generalizing i best with
  | zero => exact .inr (.inr ⟨best, hcomes, h, rfl⟩)
  | succ left ih =>
    cases he : b.entry i with
    | none =>
      refine .inl ⟨i, le_rfl, by omega, hcomes, he, ?_⟩
      simp only [selectLoop, he]
    | some e =>
      by_cases hpass : e.Passes total
      · obtain ⟨best', hbest', heq⟩ := selectLoop_succ left h he hpass
        have hcomes' : Comes b total (i + 1) := by
          intro j hj
          rcases Nat.lt_succ_iff_lt_or_eq.mp hj with hj | rfl
          · exact hcomes j hj
          · exact ⟨e, he, hpass⟩
        have hsum : i + 1 + left = i + (left + 1) := by omega
        have hih := ih (i + 1) best' hbest' hcomes'
        rw [← heq, hsum] at hih
        rcases hih with ⟨k, hk, hrest⟩ | ⟨k, e', hk, hrest⟩ | hdone
        · exact .inl ⟨k, by omega, hrest⟩
        · exact .inr (.inl ⟨k, e', by omega, hrest⟩)
        · exact .inr (.inr hdone)
      · refine .inr (.inl ⟨i, e, le_rfl, by omega, hcomes, he, hpass, ?_⟩)
        have hbound : total < add64 e.offset e.size := by
          unfold GrxFatbinEntry.Passes at hpass
          omega
        simp only [selectLoop, he, if_pos hbound]

/-! ## What the selection owes -/

/-- A blob with the container's magic. -/
def Blob.IsContainer (b : Blob) : Prop :=
  headerBytes ≤ b.size ∧ ∃ header, b.header = some header ∧ header.magic = GRX_FATBIN_MAGIC

/-- `e` is the entry at `i` of the container's table. -/
def Blob.HasEntry (b : Blob) (i : ℕ) (e : GrxFatbinEntry) : Prop :=
  (∃ header, b.header = some header ∧ i < header.numEntries) ∧ b.entry i = some e

/-- The selection from `b` on a device that answers `isaFlags` is memory-safe and optimal. -/
structure Selects (b : Blob) (isaFlags : Except VxError ℕ) : Prop where
  /-- It does not read outside the blob. -/
  inside : selectImage b isaFlags ≠ none
  /-- A blob that is not a container is returned whole. -/
  whole : ¬ b.IsContainer → selectImage b isaFlags = some (.ok ⟨0, b.size⟩)
  /-- Of a container, an image lies inside the blob and is the best that runs. -/
  best : b.IsContainer → ∀ image, selectImage b isaFlags = some (.ok image) →
    image.offset + image.size ≤ b.size ∧
    ∃ isa, isaFlags = .ok isa ∧ ∃ i e, b.HasEntry i e ∧ image = ⟨e.offset, e.size⟩ ∧
      e.Runs (deviceExt isa) ∧
      ∀ j e', b.HasEntry j e' → e'.Runs (deviceExt isa) →
        popcount e'.requiredIsa ≤ popcount e.requiredIsa
  /-- A container without an entry that runs is refused. -/
  refused : b.IsContainer →
    (∀ isa, isaFlags = .ok isa → ∀ i e, b.HasEntry i e → ¬ e.Runs (deviceExt isa)) →
    ∃ error, selectImage b isaFlags = some (.error error)

/-- What the code leaves unchecked, of a container whose header it accepts: the table lies inside the
blob as far as the loop comes, and the first of the most demanding entries that run does not wrap. -/
structure LaidOut (b : Blob) (header : GrxFatbinHeader) (ext : ℕ) : Prop where
  table : ∀ i < header.numEntries, Comes b header.totalSize i →
    headerBytes + entryBytes * (i + 1) ≤ b.size
  payload : Comes b header.totalSize header.numEntries →
    ∀ e, Best b ext header.numEntries (some e) → e.offset + e.size < 2 ^ 64

/-- The header of a container passes the checks before the loop. -/
def Accepts (b : Blob) (header : GrxFatbinHeader) : Prop :=
  headerBytes ≤ b.size ∧ b.header = some header ∧ header.magic = GRX_FATBIN_MAGIC ∧
    header.version = GRX_FATBIN_VERSION ∧ header.numEntries ≠ 0 ∧ header.totalSize ≤ b.size

theorem Blob.IsContainer.of_accepts {header : GrxFatbinHeader} (h : Accepts b header) :
    b.IsContainer :=
  ⟨h.1, header, h.2.1, h.2.2.1⟩

theorem Blob.hasEntry_iff {header : GrxFatbinHeader} (h : b.header = some header) (i : ℕ)
    (e : GrxFatbinEntry) : b.HasEntry i e ↔ i < header.numEntries ∧ b.entry i = some e := by
  unfold Blob.HasEntry
  rw [h]
  simp

/-- A blob that is not a container is returned whole. -/
theorem selectImage_whole (isaFlags : Except VxError ℕ) (h : ¬ b.IsContainer) :
    selectImage b isaFlags = some (.ok ⟨0, b.size⟩) := by
  unfold selectImage
  by_cases hsize : b.size < headerBytes
  · rw [if_pos hsize]
  · rw [if_neg hsize]
    obtain ⟨header, hheader⟩ := Option.isSome_iff_exists.mp
      (Blob.header_isSome (Nat.le_of_not_lt hsize))
    have hmagic : header.magic ≠ GRX_FATBIN_MAGIC := fun hmagic =>
      h ⟨Nat.le_of_not_lt hsize, header, hheader, hmagic⟩
    simp only [hheader, if_pos hmagic]

/-- A container whose header fails a check, or a device that does not answer, gives an error. -/
theorem selectImage_refused (isaFlags : Except VxError ℕ) (h : b.IsContainer)
    (hnot : ∀ header isa, Accepts b header → isaFlags ≠ .ok isa) :
    ∃ error, selectImage b isaFlags = some (.error error) := by
  obtain ⟨hsize, header, hheader, hmagic⟩ := h
  unfold selectImage
  rw [if_neg (Nat.not_lt.mpr hsize)]
  simp only [hheader]
  rw [if_neg (not_not.mpr hmagic)]
  split
  · exact ⟨_, rfl⟩
  split
  · exact ⟨_, rfl⟩
  split
  · exact ⟨_, rfl⟩
  next hversion hnum htotal =>
    cases isaFlags with
    | error e => exact ⟨_, rfl⟩
    | ok isa =>
      have haccepts : Accepts b header :=
        ⟨hsize, hheader, hmagic, not_not.mp hversion, hnum, Nat.le_of_not_lt htotal⟩
      exact absurd rfl (hnot header isa haccepts)

/-- Past the checks of the header, the selection is the loop's. -/
theorem selectImage_accepts {header : GrxFatbinHeader} (h : Accepts b header) (isa : ℕ) :
    selectImage b (.ok isa) =
      match selectLoop b header.totalSize (deviceExt isa) header.numEntries 0 none (-1) with
      | none => none
      | some (.error e) => some (.error e)
      | some (.ok none) => some (.error .invalidKernelImage)
      | some (.ok (some best)) => some (.ok ⟨best.offset, best.size⟩) := by
  obtain ⟨hsize, hheader, hmagic, hversion, hnum, htotal⟩ := h
  unfold selectImage
  rw [if_neg (Nat.not_lt.mpr hsize)]
  simp only [hheader]
  rw [if_neg (not_not.mpr hmagic), if_neg (not_not.mpr hversion), if_neg hnum,
    if_neg (Nat.not_lt.mpr htotal)] <;> rfl

/-- The bound check alone holds an entry inside the blob when its sum does not wrap. -/
theorem GrxFatbinEntry.Passes.inside {e : GrxFatbinEntry} (h : e.Passes total)
    (htotal : total ≤ b.size) (hwrap : e.offset + e.size < 2 ^ 64) : e.offset + e.size ≤ b.size := by
  have hsum : add64 e.offset e.size = e.offset + e.size := Nat.mod_eq_of_lt hwrap
  unfold GrxFatbinEntry.Passes at h
  omega

/-- The three outcomes of a selection from a container whose header is accepted. -/
theorem selectImage_cases {header : GrxFatbinHeader} (h : Accepts b header) (isa : ℕ) :
    (∃ k < header.numEntries, Comes b header.totalSize k ∧ b.entry k = none ∧
      selectImage b (.ok isa) = none) ∨
    (∃ k < header.numEntries, ∃ e, Comes b header.totalSize k ∧ b.entry k = some e ∧
      ¬ e.Passes header.totalSize ∧ ∃ error, selectImage b (.ok isa) = some (.error error)) ∨
    (Comes b header.totalSize header.numEntries ∧
      Best b (deviceExt isa) header.numEntries none ∧
      ∃ error, selectImage b (.ok isa) = some (.error error)) ∨
    (Comes b header.totalSize header.numEntries ∧
      ∃ best, Best b (deviceExt isa) header.numEntries (some best) ∧
      selectImage b (.ok isa) = some (.ok ⟨best.offset, best.size⟩)) := by
  have hcomes : Comes b header.totalSize 0 := by
    intro j hj
    omega
  rw [selectImage_accepts h isa]
  have hstart : Best b (deviceExt isa) 0 none := Best.start
  have hloop := selectLoop_cases header.numEntries 0 none hstart hcomes
  rw [show score none = -1 from rfl, Nat.zero_add] at hloop
  rcases hloop with ⟨k, -, hk, hc, he, heq⟩ | ⟨k, e, -, hk, hc, he, hp, heq⟩ | ⟨best, hc, hb, heq⟩
  · exact .inl ⟨k, hk, hc, he, by rw [heq]⟩
  · exact .inr (.inl ⟨k, hk, e, hc, he, hp, _, by rw [heq]⟩)
  · cases best with
    | none => exact .inr (.inr (.inl ⟨hc, hb, _, by rw [heq]⟩))
    | some best => exact .inr (.inr (.inr ⟨hc, best, hb, by rw [heq]⟩))

/-! ## The law of the selection -/

/-- A layout with both properties keeps the selection safe and optimal. -/
theorem LaidOut.selects {header : GrxFatbinHeader} {isa : ℕ} (haccepts : Accepts b header)
    (h : LaidOut b header (deviceExt isa)) : Selects b (.ok isa) := by
  have hcont := Blob.IsContainer.of_accepts haccepts
  have hhas := Blob.hasEntry_iff haccepts.2.1
  have htable : ∀ k < header.numEntries, Comes b header.totalSize k → b.entry k ≠ none := by
    intro k hk hc hnone
    have hin := h.table k hk hc
    rw [Blob.entry_eq_none_iff] at hnone
    omega
  rcases selectImage_cases haccepts isa with
    ⟨k, hk, hc, he, -⟩ | ⟨k, hk, e, hc, he, hp, error, heq⟩ | ⟨hc, hb, error, heq⟩ |
    ⟨hc, best, hb, heq⟩
  · exact absurd he (htable k hk hc)
  · refine ⟨by simp [heq], fun hnot => absurd hcont hnot, ?_, fun _ _ => ⟨error, heq⟩⟩
    intro _ image himage
    rw [heq] at himage
    cases himage
  · refine ⟨by simp [heq], fun hnot => absurd hcont hnot, ?_, fun _ _ => ⟨error, heq⟩⟩
    intro _ image himage
    rw [heq] at himage
    cases himage
  · obtain ⟨⟨j, hj, hbest, -⟩, hruns, hmax⟩ := id hb
    have hentry : b.HasEntry j best := (hhas j best).mpr ⟨hj, hbest⟩
    refine ⟨by simp [heq], fun hnot => absurd hcont hnot, ?_, ?_⟩
    · intro _ image himage
      rw [heq] at himage
      cases himage
      obtain ⟨e, he, hpass⟩ := hc j hj
      rw [hbest] at he
      cases he
      have hinside := hpass.inside haccepts.2.2.2.2.2 (h.payload hc best hb)
      refine ⟨hinside, isa, rfl, j, best, hentry, rfl, hruns, ?_⟩
      intro k e' he' hrun'
      obtain ⟨hk, he'⟩ := (hhas k e').mp he'
      exact hmax k hk e' he' hrun'
    · intro _ hnone
      exact absurd hruns (hnone isa rfl j best hentry)

/-- A safe selection needs both. -/
theorem Selects.laidOut {header : GrxFatbinHeader} {isa : ℕ} (haccepts : Accepts b header)
    (h : Selects b (.ok isa)) : LaidOut b header (deviceExt isa) := by
  rcases selectImage_cases haccepts isa with
    ⟨k, hk, hc, he, heq⟩ | ⟨k, hk, e, hc, he, hp, error, heq⟩ | ⟨hc, hb, error, heq⟩ |
    ⟨hc, best, hb, heq⟩
  · exact absurd heq h.inside
  · -- the loop stops at `k`, whose entry it reads
    have hstop : ∀ i, Comes b header.totalSize i → i ≤ k := by
      intro i hi
      by_contra hlt
      obtain ⟨e', he', hp'⟩ := hi k (by omega)
      rw [he] at he'
      cases he'
      exact hp hp'
    refine ⟨?_, ?_⟩
    · intro i _ hi
      have hin := (b.entry_isSome k).mp (Option.isSome_of_eq_some he)
      have hle := hstop i hi
      unfold headerBytes entryBytes at *
      omega
    · intro hall
      have hle := hstop _ hall
      omega
  · refine ⟨?_, ?_⟩
    · intro i hi _
      obtain ⟨e, he, -⟩ := hc i hi
      exact (b.entry_isSome i).mp (Option.isSome_of_eq_some he)
    · intro _ e he
      obtain ⟨⟨j, hj, hent, -⟩, hruns, -⟩ := he
      exact absurd hruns (hb j hj e hent)
  · refine ⟨?_, ?_⟩
    · intro i hi _
      obtain ⟨e, he, -⟩ := hc i hi
      exact (b.entry_isSome i).mp (Option.isSome_of_eq_some he)
    · intro _ e he
      have hsame : e = best := he.unique hb
      have hin := (h.best (Blob.IsContainer.of_accepts haccepts) _ heq).1
      have hlt := b.size_lt
      rw [hsame]
      exact lt_of_le_of_lt hin hlt

/-- For every blob of any length and every answer of the device, `select_image` reads inside the
blob, returns what is not a container whole, and returns of a container the most demanding entry that
runs, inside the blob, if and only if the container whose header it accepts is laid out. -/
theorem selectImage_selects_iff (b : Blob) (isaFlags : Except VxError ℕ) :
    Selects b isaFlags ↔
      ∀ header isa, Accepts b header → isaFlags = .ok isa → LaidOut b header (deviceExt isa) := by
  constructor
  · rintro h header isa haccepts rfl
    exact h.laidOut haccepts
  · intro h
    by_cases hcont : b.IsContainer
    · by_cases hloop : ∃ header isa, Accepts b header ∧ isaFlags = .ok isa
      · obtain ⟨header, isa, haccepts, rfl⟩ := hloop
        exact (h header isa haccepts rfl).selects haccepts
      · have hnot : ∀ header isa, Accepts b header → isaFlags ≠ .ok isa := by
          intro header isa haccepts hisa
          exact hloop ⟨header, isa, haccepts, hisa⟩
        obtain ⟨error, heq⟩ := selectImage_refused isaFlags hcont hnot
        refine ⟨by simp [heq], fun hno => absurd hcont hno, ?_, fun _ _ => ⟨error, heq⟩⟩
        intro _ image himage
        rw [heq] at himage
        cases himage
    · have heq := selectImage_whole isaFlags hcont
      exact ⟨by simp [heq], fun _ => heq, fun hc => absurd hc hcont, fun hc => absurd hc hcont⟩

/-- A container of a header alone, that says it has one entry. -/
def headerOnly : Blob where
  bytes := [0x47, 0x52, 0x58, 0x46, 1, 0, 1, 0, 16, 0, 0, 0, 0, 0, 0, 0]
  fits := by decide

/-- A container of one entry, whose image of 16 bytes starts 16 bytes before 2^64. -/
def wrapping : Blob where
  bytes := [0x47, 0x52, 0x58, 0x46, 1, 0, 1, 0, 48, 0, 0, 0, 0, 0, 0, 0] ++
    [0, 0, 0, 0, 64, 0, 0, 0, 0, 0, 0, 0, 0, 0, 0, 0] ++
    [0xf0, 0xff, 0xff, 0xff, 0xff, 0xff, 0xff, 0xff, 16, 0, 0, 0, 0, 0, 0, 0]
  fits := by decide

/-- From the header alone the loop reads an entry past the blob's end, and from the other container
an image is returned that is not in it. -/
theorem selectImage_selects_not :
    ¬ Selects headerOnly (.ok 0) ∧ ¬ Selects wrapping (.ok 0) := by
  constructor
  · intro h
    exact h.inside (by decide)
  · intro h
    have himage : selectImage wrapping (.ok 0) = some (.ok ⟨2 ^ 64 - 16, 16⟩) := by decide
    have hcont : wrapping.IsContainer := ⟨by decide, ⟨_, 1, 1, 48⟩, by decide, rfl⟩
    have hinside := (h.best hcont _ himage).1
    exact absurd hinside (by decide)

end Grxcp.Runtime
