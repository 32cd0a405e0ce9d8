import Grxcp.Runtime.Launch

/-!
# The argument block of a launch

A parameter has a range of the block, and the block holds in it the argument's value at the device's
width. The loop writes one range after the other, so with ranges apart a later parameter leaves what an
earlier one has written (`packFrom_ok`).
-/

namespace Grxcp.Runtime

/-! ## Parameters -/

/-- The end of a parameter's range. -/
def KernelParam.stop (p : KernelParam) : ℕ :=
  p.offset.toNat + p.size.toNat

/-- The byte is of the parameter's range. -/
def KernelParam.Covers (p : KernelParam) (n : ℕ) : Prop :=
  p.offset.toNat ≤ n ∧ n < p.stop

/-- The ranges of two parameters do not overlap. -/
def KernelParam.Apart (p q : KernelParam) : Prop :=
  ∀ n, ¬ (p.Covers n ∧ q.Covers n)

/-- A host value of the parameter: of its size, or a host pointer that is at least as wide. -/
def KernelParam.Takes (p : KernelParam) (value : List UInt8) : Prop :=
  if p.isPointer then value.length = sizeofPointer ∧ p.size.toNat ≤ sizeofPointer
  else value.length = p.size.toNat

/-- The loop refuses the parameter: its range leaves the block, or the pointer does not fit its width. -/
def KernelParam.Refused (p : KernelParam) (value : List UInt8) (size : ℕ) : Prop :=
  size < p.stop ∨ p.isPointer ∧ 256 ^ p.size.toNat ≤ ofLE value

/-- What a block of arguments is to be: each parameter reads its argument's value, and what is of no
parameter is zero. -/
structure Packed (k : KernelBinding) (args : ℕ → Option (List UInt8)) (block : Blob) : Prop where
  size : block.size = k.argsSize.toNat
  read : ∀ i p value, k.params[i]? = some p → args i = some value →
    block.uint p.offset.toNat p.size.toNat = some (ofLE value)
  zero : ∀ n < block.size, (∀ p ∈ k.params, ¬ p.Covers n) → block.bytes[n]? = some 0

/-! ## One parameter -/

section Parameter

variable {p : KernelParam} {value : List UInt8} {out block : Blob}

theorem KernelParam.Takes.le (h : p.Takes value) : p.size.toNat ≤ value.length := by
  unfold Takes at h
  split at h
  · rw [h.1]
    exact h.2
  · exact h.ge

/-- A pointer fits its width if its high bytes are zero. -/
theorem KernelParam.Takes.narrow_iff (h : p.Takes value) :
    (p.isPointer ∧ p.size.toNat < sizeofPointer ∧
      ofLE (value.take sizeofPointer) / 2 ^ (p.size.toNat * 8) ≠ 0) ↔
    (p.isPointer ∧ 256 ^ p.size.toNat ≤ ofLE value) := by
  have hpow : 2 ^ (p.size.toNat * 8) = 256 ^ p.size.toNat := by
    rw [mul_comm, pow_mul]
    norm_num
  unfold Takes at h
  constructor
  · rintro ⟨hp, -, hhigh⟩
    rw [if_pos hp] at h
    rw [List.take_of_length_le h.1.le, hpow] at hhigh
    refine ⟨hp, ?_⟩
    by_contra hlt
    exact hhigh (Nat.div_eq_of_lt (not_le.mp hlt))
  · rintro ⟨hp, hge⟩
    rw [if_pos hp] at h
    have hlt := ofLE_lt value
    rw [h.1] at hlt
    refine ⟨hp, ?_, ?_⟩
    · exact (Nat.pow_lt_pow_iff_right (by norm_num)).mp (lt_of_le_of_lt hge hlt)
    · rw [List.take_of_length_le h.1.le, hpow]
      exact (Nat.div_pos hge (Nat.pow_pos (by norm_num))).ne'

/-- One pass of the loop: the parameter is refused, or its bytes are written. -/
theorem packArgument_cases (out : Blob) (h : p.Takes value) :
    (p.Refused value out.size ∧ packArgument p (some value) out = .error .invalidValue) ∨
      ¬ p.Refused value out.size ∧ ∃ block, packArgument p (some value) out = .ok block ∧
        out.patch p.offset.toNat (value.take p.size.toNat) = some block := by
  unfold packArgument KernelParam.Refused KernelParam.stop
  dsimp only
  by_cases hsize : out.size < p.offset.toNat + p.size.toNat
  · rw [if_pos hsize]
    exact .inl ⟨.inl hsize, rfl⟩
  rw [if_neg hsize]
  by_cases hwide : p.isPointer ∧ 256 ^ p.size.toNat ≤ ofLE value
  · rw [if_pos (h.narrow_iff.mpr hwide)]
    exact .inl ⟨.inr hwide, rfl⟩
  · rw [if_neg (mt h.narrow_iff.mp hwide)]
    obtain ⟨block, hblock⟩ : ∃ block, out.patch p.offset.toNat (value.take p.size.toNat) = some block := by
      apply Blob.exists_patch
      rw [List.length_take_of_le h.le]
      exact not_lt.mp hsize
    refine .inr ⟨not_or.mpr ⟨hsize, hwide⟩, block, ?_, hblock⟩
    rw [hblock]
    rfl

/-- A parameter whose range holds the value's bytes reads the value. -/
theorem KernelParam.Takes.uint (h : p.Takes value) (hr : ¬ p.Refused value block.size)
    (hbytes : ∀ n, p.Covers n → block.bytes[n]? = value[n - p.offset.toNat]?) :
    block.uint p.offset.toNat p.size.toNat = some (ofLE value) := by
  have hread : block.read p.offset.toNat p.size.toNat = some (value.take p.size.toNat) := by
    rw [Blob.read_eq_some_iff]
    refine ⟨not_lt.mp fun hlt => hr (.inl hlt), ?_⟩
    apply List.ext_getElem?
    intro n
    by_cases hn : n < p.size.toNat
    · rw [List.getElem?_take_of_lt hn, List.getElem?_take_of_lt hn, List.getElem?_drop,
        hbytes _ ⟨Nat.le_add_right _ _, Nat.add_lt_add_left hn _⟩, Nat.add_sub_cancel_left]
    · rw [List.getElem?_take_eq_none (not_lt.mp hn), List.getElem?_take_eq_none (not_lt.mp hn)]
  have hvalue : ofLE (value.take p.size.toNat) = ofLE value := by
    by_cases hp : p.isPointer
    · exact ofLE_take_of_lt h.le (not_le.mp fun hge => hr (.inr ⟨hp, hge⟩))
    · unfold KernelParam.Takes at h
      rw [if_neg hp] at h
      rw [List.take_of_length_le h.le]
  rw [Blob.uint, hread, Option.map_some, hvalue]

end Parameter

/-! ## The loop -/

section Loop

variable {args : ℕ → Option (List UInt8)} {ps : List KernelParam} {i : ℕ} {out block : Blob}

/-- The loop refuses the launch if it refuses one of the parameters. -/
theorem packFrom_error_iff (h : ∀ j p, ps[j]? = some p → ∃ value, args (i + j) = some value ∧ p.Takes value) :
    (∃ e, packFrom args i ps out = .error e) ↔
      ∃ j p value, ps[j]? = some p ∧ args (i + j) = some value ∧ p.Refused value out.size := by
  induction ps generalizing i out with
  | nil => simp [packFrom]
  | cons p ps ih =>
    obtain ⟨value, hvalue, htakes⟩ := h 0 p rfl
    have htail : ∀ j q, ps[j]? = some q → ∃ value, args (i + 1 + j) = some value ∧ q.Takes value := by
      intro j q hq
      rw [Nat.add_assoc, Nat.add_comm 1]
      exact h (j + 1) q hq
    have hsplit : (∃ j q value, (p :: ps)[j]? = some q ∧ args (i + j) = some value ∧
          q.Refused value out.size) ↔
        p.Refused value out.size ∨ ∃ j q value, ps[j]? = some q ∧ args (i + 1 + j) = some value ∧
          q.Refused value out.size := by
      constructor
      · rintro ⟨j, q, value', hq, hv, hr⟩
        cases j with
        | zero =>
          cases hq
          rw [Nat.add_zero, ← Nat.add_zero i, hvalue] at hv
          cases hv
          exact .inl hr
        | succ j =>
          refine .inr ⟨j, q, value', hq, ?_, hr⟩
          rw [Nat.add_assoc, Nat.add_comm 1]
          exact hv
      · rintro (hr | ⟨j, q, value', hq, hv, hr⟩)
        · exact ⟨0, p, value, rfl, hvalue, hr⟩
        · rw [Nat.add_assoc, Nat.add_comm 1] at hv
          exact ⟨j + 1, q, value', hq, hv, hr⟩
    rw [hsplit]
    unfold packFrom
    rw [show args i = some value from hvalue]
    rcases packArgument_cases out htakes with ⟨hr, heq⟩ | ⟨hr, out', heq, hpatch⟩
    · rw [heq]
      exact ⟨fun _ => .inl hr, fun _ => ⟨_, rfl⟩⟩
    · rw [heq]
      dsimp only
      rw [ih htail, Blob.patch_size hpatch, or_iff_right hr]

/-- What the loop leaves, of parameters with ranges apart: in each range the bytes of the parameter's
argument, and elsewhere what was there. -/
theorem packFrom_ok (h : ∀ j p, ps[j]? = some p → ∃ value, args (i + j) = some value ∧ p.Takes value)
    (hapart : ps.Pairwise KernelParam.Apart) (hok : packFrom args i ps out = .ok block) :
    block.size = out.size ∧
      (∀ j p value, ps[j]? = some p → args (i + j) = some value →
        ∀ n, p.Covers n → block.bytes[n]? = value[n - p.offset.toNat]?) ∧
      ∀ n, (∀ p ∈ ps, ¬ p.Covers n) → block.bytes[n]? = out.bytes[n]? := by
  induction ps generalizing i out with
  | nil =>
    cases hok
    refine ⟨rfl, ?_, fun _ _ => rfl⟩
    intro j p value hp
    cases hp
  | cons p ps ih =>
    obtain ⟨hhead, hrest⟩ := List.pairwise_cons.mp hapart
    obtain ⟨value, hvalue, htakes⟩ := h 0 p rfl
    have htail : ∀ j q, ps[j]? = some q → ∃ value, args (i + 1 + j) = some value ∧ q.Takes value := by
      intro j q hq
      rw [Nat.add_assoc, Nat.add_comm 1]
      exact h (j + 1) q hq
    unfold packFrom at hok
    rw [show args i = some value from hvalue] at hok
    rcases packArgument_cases out htakes with ⟨-, heq⟩ | ⟨-, out', heq, hpatch⟩
    · rw [heq] at hok
      cases hok
    rw [heq] at hok
    obtain ⟨hsize, hread, hkept⟩ := ih htail hrest hok
    have hlen : (value.take p.size.toNat).length = p.size.toNat := List.length_take_of_le htakes.le
    refine ⟨hsize.trans (Blob.patch_size hpatch), ?_, ?_⟩
    · intro j q value' hq hv n hn
      cases j with
      | zero =>
        cases hq
        rw [hvalue] at hv
        cases hv
        -- no later parameter writes to the range
        have hlt : n - p.offset.toNat < p.size.toNat := by
          unfold KernelParam.Covers KernelParam.stop at hn
          omega
        have hat : n = p.offset.toNat + (n - p.offset.toNat) := by
          have := hn.1
          omega
        rw [hkept n fun q hq hc => hhead q hq n ⟨hn, hc⟩, hat,
          Blob.patch_within hpatch (by rw [hlen]; exact hlt), List.getElem?_take_of_lt hlt,
          Nat.add_sub_cancel_left]
      | succ j =>
        refine hread j q value' hq ?_ n hn
        rw [Nat.add_assoc, Nat.add_comm 1]
        exact hv
    · intro n hn
      rw [hkept n fun q hq => hn q (List.mem_cons_of_mem p hq)]
      apply Blob.patch_outside hpatch
      rw [hlen]
      by_contra hin
      have hcovers := hn p List.mem_cons_self
      unfold KernelParam.Covers KernelParam.stop at hcovers
      omega

end Loop

/-! ## The block -/

/-- For every layout whose ranges do not overlap, and arguments of its sizes, the launch is refused if
and only if a parameter leaves the block or a pointer does not fit its width; and otherwise each parameter
reads its argument's value, and every other byte of the block is zero. -/
theorem packArguments_packed (k : KernelBinding) (args : ℕ → Option (List UInt8))
    (hlayout : k.hasLayout = true) (hapart : k.params.Pairwise KernelParam.Apart)
    (hargs : ∀ i p, k.params[i]? = some p → ∃ value, args i = some value ∧ p.Takes value) :
    ((∃ e, packArguments k (some args) = .error e) ↔
      ∃ i p value, k.params[i]? = some p ∧ args i = some value ∧
        p.Refused value k.argsSize.toNat) ∧
    ∀ block, packArguments k (some args) = .ok block → Packed k args block := by
  have heq : packArguments k (some args) = packFrom args 0 k.params (zeros k.argsSize) := by
    unfold packArguments
    rw [hlayout]
    rfl
  have hzeros : (zeros k.argsSize).size = k.argsSize.toNat := List.length_replicate
  have hargs' : ∀ j p, k.params[j]? = some p → ∃ value, args (0 + j) = some value ∧ p.Takes value := by
    intro j p hp
    rw [Nat.zero_add]
    exact hargs j p hp
  rw [heq]
  refine ⟨?_, fun block hok => ?_⟩
  · rw [packFrom_error_iff hargs', hzeros]
    simp only [Nat.zero_add]
  · obtain ⟨hsize, hread, hkept⟩ := packFrom_ok hargs' hapart hok
    rw [hzeros] at hsize
    refine ⟨hsize, fun i p value hp hv => ?_, fun n hn hfree => ?_⟩
    · obtain ⟨value', hv', htakes⟩ := hargs i p hp
      rw [hv] at hv'
      cases hv'
      refine htakes.uint (fun hr => ?_) (hread i p value hp (by rw [Nat.zero_add]; exact hv))
      rw [hsize, ← hzeros] at hr
      obtain ⟨e, herror⟩ := (packFrom_error_iff hargs').mpr
        ⟨i, p, value, hp, by rw [Nat.zero_add]; exact hv, hr⟩
      rw [hok] at herror
      cases herror
    · rw [hkept n hfree]
      show (List.replicate k.argsSize.toNat 0)[n]? = some 0
      rw [List.getElem?_replicate, if_pos (hsize ▸ hn)]

/-- A kernel of a pointer and a count, on a device with 32-bit pointers. -/
def saxpyKernel : KernelBinding where
  kernel := ⟨0, 0⟩
  params := [⟨0, 4, true⟩, ⟨8, 4, false⟩]
  argsSize := 16

/-- Its arguments: the pointer `0x1000`, and 5. -/
def saxpyArgs (i : ℕ) : Option (List UInt8) :=
  [[0, 16, 0, 0, 0, 0, 0, 0], [5, 0, 0, 0]][i]?

theorem packArguments_packed_saxpy :
    ∃ block, packArguments saxpyKernel (some saxpyArgs) = .ok block ∧
      Packed saxpyKernel saxpyArgs block := by
  refine ⟨_, rfl, (packArguments_packed saxpyKernel saxpyArgs rfl ?_ ?_).2 _ rfl⟩
  · refine .cons ?_ (.cons (by simp) .nil)
    intro q hq n hn
    obtain rfl := List.mem_singleton.mp hq
    obtain ⟨⟨-, hlt⟩, hle, -⟩ := hn
    exact absurd (lt_of_le_of_lt hle hlt) (by decide)
  · intro i p hp
    match i, hp with
    | 0, rfl => exact ⟨_, rfl, rfl, by decide⟩
    | 1, rfl => exact ⟨_, rfl, rfl⟩

end Grxcp.Runtime
