import Grxcp.Lib.OrdMap

/-!
# Extents

A free list is an ordered map from the base of each extent to its size. `give` returns a range to it
and joins it to the extent that ends where it begins and to the one that begins where it ends;
`carve` takes the front of an extent away. Both are described by the points a list covers. A list in
canonical form, with no empty extents and no two that touch, is determined by the points it covers
(`Canonical.ext`), so any order of gives and carves that leads to one set leads to one list.
-/

namespace Grxcp

/-- Ranges of the line, by base, with their sizes. -/
abbrev Extents :=
  OrdMap ℕ ℕ

namespace Extents

/-- A point of some extent. -/
def Covers (m : Extents) (x : ℕ) : Prop :=
  ∃ b n, m.Has b n ∧ b ≤ x ∧ x < b + n

/-- No extent reaches into another that has points. -/
def Apart (m : Extents) : Prop :=
  ∀ b n b' n', m.Has b n → m.Has b' n' → b < b' → 0 < n' → b + n ≤ b'

/-- Every extent lies in a range. -/
def Within (m : Extents) (lo hi : ℕ) : Prop :=
  ∀ b n, m.Has b n → lo ≤ b ∧ b + n ≤ hi

/-- No empty extents, and no two that touch. -/
def Canonical (m : Extents) : Prop :=
  ∀ b n, m.Has b n → 0 < n ∧ ∀ b' n', m.Has b' n' → b < b' → b + n < b'

/-- The one extent of a range, or none if the range is empty. -/
def single (base size : ℕ) : Extents :=
  OrdMap.empty.insert base size

/-- Join a range to the extent that begins where it ends: the list without that extent, and the
size of both. -/
def joinNext (m : Extents) (base size : ℕ) : Extents × ℕ :=
  match m.lowerBound base with
  | some (b, n) => if base + size = b then (m.erase b, size + n) else (m, size)
  | none => (m, size)

/-- Join a range to the extent that ends where it begins: the list without that extent, and the base
and the size of both. -/
def joinPrev (m : Extents) (base size : ℕ) : Extents × ℕ × ℕ :=
  match m.below base with
  | some (b, n) => if b + n = base then (m.erase b, b, size + n) else (m, base, size)
  | none => (m, base, size)

/-- Return a range to the list. -/
def give (m : Extents) (base size : ℕ) : Extents :=
  match joinNext m base size with
  | (m, size) =>
      match joinPrev m base size with
      | (m, base, size) => m.insert base size

/-- Take the front of an extent away, and return the rest of it. -/
def carve (m : Extents) (b n bytes : ℕ) : Extents :=
  if bytes < n then give (m.erase b) (b + bytes) (n - bytes) else m.erase b

theorem covers_single {base size x : ℕ} : (single base size).Covers x ↔ base ≤ x ∧ x < base + size := by
  unfold Covers single
  constructor
  · rintro ⟨b, n, hb, hx⟩
    obtain ⟨rfl, rfl⟩ : b = base ∧ n = size := by simpa using hb
    exact hx
  · exact fun hx => ⟨base, size, by simp, hx⟩

theorem apart_empty : Apart OrdMap.empty := by
  intro b n b' n' h
  simp at h

theorem apart_single (base size : ℕ) : (single base size).Apart := by
  intro b n b' n' h h' hlt
  simp [single] at h h'
  omega

/-! ## What `give` leaves -/

/-- What joining to the next extent does: nothing, or the extent at the range's end goes. -/
theorem joinNext_cases (m : Extents) (base size : ℕ) :
    (joinNext m base size = (m, size) ∧
        ((∀ k v, m.Has k v → base ≤ k → base + size ≤ k) → ∀ n, ¬m.Has (base + size) n)) ∨
      ∃ n, m.Has (base + size) n ∧ joinNext m base size = (m.erase (base + size), size + n) := by
  unfold joinNext
  rcases hl : m.lowerBound base with _ | ⟨b, n⟩
  · refine .inl ⟨rfl, fun _ n hn => ?_⟩
    have := OrdMap.lowerBound_eq_none_iff.mp hl _ _ hn
    omega
  · obtain ⟨hm, hle, hmin⟩ := OrdMap.lowerBound_eq_some_iff.mp hl
    by_cases hb : base + size = b
    · refine .inr ⟨n, hb ▸ hm, ?_⟩
      simp [hb]
    · refine .inl ⟨by simp [hb], fun hclear n' hn' => ?_⟩
      have h₁ := hmin _ _ hn' (Nat.le_add_right _ _)
      have h₂ := hclear _ _ hm hle
      omega

/-- What joining to the previous extent does: nothing, or the extent that ends at the base goes. -/
theorem joinPrev_cases (m : Extents) (base size : ℕ) :
    (joinPrev m base size = (m, base, size) ∧
        ∀ b n, m.Has b n → b < base → (∀ k v, m.Has k v → b < k → base ≤ k) → b + n ≠ base) ∨
      ∃ b n, m.Has b n ∧ b < base ∧ b + n = base ∧
        joinPrev m base size = (m.erase b, b, size + n) := by
  unfold joinPrev
  rcases hl : m.below base with _ | ⟨b, n⟩
  · refine .inl ⟨rfl, fun b n hb hlt => ?_⟩
    have := OrdMap.below_eq_none_iff.mp hl _ _ hb
    omega
  · obtain ⟨hm, hlt, hmax⟩ := OrdMap.below_eq_some_iff.mp hl
    by_cases hb : b + n = base
    · exact .inr ⟨b, n, hm, hlt, hb, by simp [hb]⟩
    · refine .inl ⟨by simp [hb], fun b' n' hb' hlt' hclear => ?_⟩
      have h₁ := hmax _ _ hb' hlt'
      have h₂ : b' = b := by
        by_contra hne
        have := hclear _ _ hm (by omega)
        omega
      subst h₂
      rwa [hb'.unique hm]

/-- The list after a range is returned: the one extent the range became part of, which begins at `lo`
and takes in the next extent if there was one to join, and the others as they were. -/
structure Given (m m' : Extents) (base size lo : ℕ) (next : Option ℕ) : Prop where
  has : ∀ k v, m'.Has k v ↔
    k = lo ∧ v = (base - lo) + size + next.getD 0 ∨
      m.Has k v ∧ k ≠ lo ∧ (next.isSome = true → k ≠ base + size)
  start : lo = base ∨ lo < base ∧ m.Has lo (base - lo)
  joined : ∀ n, next = some n → m.Has (base + size) n
  noPrev : lo = base → ∀ b n, m.Has b n → b < base →
    (∀ k v, m.Has k v → b < k → base ≤ k) → b + n ≠ base
  noNext : next = none → (∀ k v, m.Has k v → base ≤ k → base + size ≤ k) →
    ∀ n, ¬m.Has (base + size) n

theorem give_given (m : Extents) (base size : ℕ) :
    ∃ lo next, Given m (give m base size) base size lo next := by
  unfold give
  obtain ⟨hn, hno⟩ | ⟨n, hn, hj⟩ := joinNext_cases m base size
  · rw [hn]
    obtain ⟨hp, hnp⟩ | ⟨b, n', hb, hlt, he, hp⟩ := joinPrev_cases m base size
    · refine ⟨base, none, ?_, .inl rfl, by simp, fun _ => hnp, fun _ => hno⟩
      intro k v
      simp only [hp, OrdMap.has_insert, Option.getD_none, Option.isSome_none]
      grind
    · refine ⟨b, none, ?_, .inr ⟨hlt, ?_⟩, by simp, fun h => absurd h (by omega), fun _ => hno⟩
      · intro k v
        simp only [hp, OrdMap.has_insert, OrdMap.has_erase, Option.getD_none, Option.isSome_none]
        grind
      · rwa [show base - b = n' by omega]
  · rw [hj]
    obtain ⟨hp, hnp⟩ | ⟨b, n', hb, hlt, he, hp⟩ :=
      joinPrev_cases (m.erase (base + size)) base (size + n)
    · refine ⟨base, some n, ?_, .inl rfl, by simpa using hn, fun _ => ?_, by simp⟩
      · intro k v
        simp only [hp, OrdMap.has_insert, OrdMap.has_erase, Option.getD_some, Option.isSome_some]
        grind
      · intro b n' hb hlt hclear
        refine hnp b n' (OrdMap.has_erase.mpr ⟨hb, by omega⟩) hlt fun k v hk hbk => ?_
        exact hclear k v (OrdMap.has_erase.mp hk).1 hbk
    · have hb' := (OrdMap.has_erase.mp hb).1
      refine ⟨b, some n, ?_, .inr ⟨hlt, ?_⟩, by simpa using hn, fun h => absurd h (by omega),
        by simp⟩
      · intro k v
        simp only [hp, OrdMap.has_insert, OrdMap.has_erase, Option.getD_some, Option.isSome_some]
        grind
      · rwa [show base - b = n' by omega]

/-- The extents of a list after a `give` begin where extents began before, or at the range. -/
theorem has_give {m : Extents} {base size k v : ℕ} (h : (give m base size).Has k v) :
    k = base ∨ ∃ w, m.Has k w := by
  obtain ⟨lo, next, hg⟩ := give_given m base size
  rcases (hg.has k v).mp h with ⟨rfl, -⟩ | ⟨hm, -⟩
  · rcases hg.start with h | ⟨-, h⟩
    · exact .inl h
    · exact .inr ⟨_, h⟩
  · exact .inr ⟨v, hm⟩

theorem give_empty (base size : ℕ) : give .empty base size = single base size := rfl

/-- None of the points of a range is covered. -/
def Fresh (m : Extents) (base size : ℕ) : Prop :=
  ∀ x, base ≤ x → x < base + size → ¬m.Covers x

/-- A returned range adds its own points. -/
theorem covers_give {m : Extents} {base size : ℕ} (hf : m.Fresh base size) (x : ℕ) :
    (give m base size).Covers x ↔ m.Covers x ∨ base ≤ x ∧ x < base + size := by
  obtain ⟨lo, next, hg⟩ := give_given m base size
  have hlo : lo ≤ base := by
    rcases hg.start with h | ⟨h, -⟩ <;> omega
  constructor
  · rintro ⟨b, n, hb, hx⟩
    rcases (hg.has b n).mp hb with ⟨rfl, rfl⟩ | ⟨hm, -⟩
    · by_cases h₁ : x < base
      · rcases hg.start with h | ⟨-, h⟩
        · omega
        · exact .inl ⟨b, _, h, by omega, by omega⟩
      · by_cases h₂ : x < base + size
        · exact .inr ⟨by omega, h₂⟩
        · cases hnext : next with
          | none => simp only [hnext, Option.getD_none] at hx; omega
          | some n' =>
            simp only [hnext, Option.getD_some] at hx
            exact .inl ⟨_, n', hg.joined n' hnext, by omega, by omega⟩
    · exact .inl ⟨b, n, hm, hx⟩
  · have hnew : (give m base size).Has lo ((base - lo) + size + next.getD 0) :=
      (hg.has _ _).mpr (.inl ⟨rfl, rfl⟩)
    rintro (⟨b, n, hb, hx⟩ | hx)
    · by_cases hk : b ≠ lo ∧ (next.isSome = true → b ≠ base + size)
      · exact ⟨b, n, (hg.has b n).mpr (.inr ⟨hb, hk⟩), hx⟩
      · refine ⟨lo, _, hnew, ?_⟩
        by_cases hblo : b = lo
        · rcases hg.start with h | ⟨hlt, h⟩
          · -- an extent at the range's own base has no point of the range
            by_cases hs : 0 < size
            · exact absurd ⟨b, n, hb, by omega, by omega⟩ (hf base le_rfl (by omega))
            · obtain rfl : size = 0 := by omega
              cases hnext : next with
              | none =>
                refine absurd hb ?_
                rw [hblo, h]
                simpa using hg.noNext hnext (by simp) n
              | some n' =>
                have hm := hg.joined n' hnext
                rw [hblo, h] at hb
                obtain rfl := hb.unique (by simpa using hm)
                simp only [Option.getD_some]
                omega
          · subst hblo
            obtain rfl := hb.unique h
            omega
        · obtain ⟨n', hn'⟩ : ∃ n', next = some n' := by
            rw [← Option.isSome_iff_exists]
            by_contra hne
            exact hk ⟨hblo, fun h => absurd h hne⟩
          have hbe : b = base + size := by
            by_contra hne
            exact hk ⟨hblo, fun _ => hne⟩
          have hm := hg.joined n' hn'
          rw [← hbe] at hm
          obtain rfl := hb.unique hm
          simp only [hn', Option.getD_some]
          omega
    · exact ⟨lo, _, hnew, by omega, by omega⟩

/-- The extents above a returned range's own begin at its end or later. -/
private theorem Given.above {m m' : Extents} {base size lo : ℕ} {next : Option ℕ}
    (hg : Given m m' base size lo next) (ha : m.Apart) (hf : m.Fresh base size) {k v : ℕ}
    (hk : m.Has k v) (hlt : lo < k) (hv : 0 < v) : base + size ≤ k := by
  by_contra hlt'
  have hbase : base ≤ k := by
    rcases hg.start with h | ⟨h, hlo⟩
    · omega
    · have := ha _ _ _ _ hlo hk hlt hv
      omega
  exact hf k hbase (by omega) ⟨k, v, hk, le_rfl, by omega⟩

theorem apart_give {m : Extents} {base size : ℕ} (ha : m.Apart) (hf : m.Fresh base size) :
    (give m base size).Apart := by
  obtain ⟨lo, next, hg⟩ := give_given m base size
  have hlo : lo ≤ base := by
    rcases hg.start with h | ⟨h, -⟩ <;> omega
  intro k v k' v' hk hk' hlt hv'
  rcases (hg.has k v).mp hk with ⟨rfl, rfl⟩ | ⟨hm, hne, -⟩
  · rcases (hg.has k' v').mp hk' with ⟨rfl, -⟩ | ⟨hm', -, hj⟩
    · omega
    · have habove := hg.above ha hf hm' hlt hv'
      cases hnext : next with
      | none => simp only [Option.getD_none]; omega
      | some n =>
        have hne := hj (by simp [hnext])
        have := ha _ _ _ _ (hg.joined n hnext) hm' (by omega) hv'
        simp only [Option.getD_some]
        omega
  · rcases (hg.has k' v').mp hk' with ⟨rfl, rfl⟩ | ⟨hm', -⟩
    · rcases hg.start with rfl | ⟨hlt', hlo'⟩
      · by_contra hgt
        by_cases hs : 0 < size
        · exact hf k' le_rfl (by omega) ⟨k, v, hm, by omega, by omega⟩
        · obtain rfl : size = 0 := by omega
          cases hnext : next with
          | none => simp [hnext] at hv'
          | some n =>
            have hn := hg.joined n hnext
            have := ha _ _ _ _ hm hn hlt (by simpa [hnext] using hv')
            omega
      · exact ha _ _ _ _ hm hlo' hlt (by omega)
    · exact ha _ _ _ _ hm hm' hlt hv'

theorem within_give {m : Extents} {base size lo hi : ℕ} (hw : m.Within lo hi) (hb : lo ≤ base)
    (he : base + size ≤ hi) : (give m base size).Within lo hi := by
  obtain ⟨lo', next, hg⟩ := give_given m base size
  intro k v hk
  rcases (hg.has k v).mp hk with ⟨rfl, rfl⟩ | ⟨hm, -⟩
  · have hlo : lo ≤ k ∧ k ≤ base := by
      rcases hg.start with h | ⟨h, hm⟩
      · omega
      · exact ⟨(hw _ _ hm).1, h.le⟩
    cases hnext : next with
    | none => simp only [Option.getD_none]; omega
    | some n =>
      have := (hw _ _ (hg.joined n hnext)).2
      simp only [Option.getD_some]
      omega
  · exact hw k v hm

theorem Canonical.apart {m : Extents} (hc : m.Canonical) : m.Apart :=
  fun b n b' n' h h' hlt _ => ((hc b n h).2 b' n' h' hlt).le

theorem canonical_give {m : Extents} {base size : ℕ} (hc : m.Canonical) (hs : 0 < size)
    (hf : m.Fresh base size) : (give m base size).Canonical := by
  obtain ⟨lo, next, hg⟩ := give_given m base size
  have hclear : ∀ k v, m.Has k v → base ≤ k → base + size ≤ k := by
    intro k v hk hle
    by_contra hlt
    exact hf k hle (by omega) ⟨k, v, hk, le_rfl, by have := (hc k v hk).1; omega⟩
  intro k v hk
  rcases (hg.has k v).mp hk with ⟨rfl, rfl⟩ | ⟨hm, hne, -⟩
  · refine ⟨by omega, fun k' v' hk' hlt => ?_⟩
    rcases (hg.has k' v').mp hk' with ⟨rfl, -⟩ | ⟨hm', -, hj⟩
    · omega
    · have hlo : k ≤ base := by
        rcases hg.start with h | ⟨h, -⟩ <;> omega
      have habove := hg.above hc.apart hf hm' hlt (hc k' v' hm').1
      cases hnext : next with
      | none =>
        have hne : k' ≠ base + size := fun h => hg.noNext hnext hclear v' (h ▸ hm')
        simp only [Option.getD_none]
        omega
      | some n =>
        have hne := hj (by simp [hnext])
        have := (hc _ _ (hg.joined n hnext)).2 _ _ hm' (by omega)
        simp only [Option.getD_some]
        omega
  · refine ⟨(hc k v hm).1, fun k' v' hk' hlt => ?_⟩
    rcases (hg.has k' v').mp hk' with ⟨rfl, rfl⟩ | ⟨hm', -⟩
    · rcases hg.start with rfl | ⟨hlt', hlo'⟩
      · have hle : k + v ≤ k' := by
          by_contra hgt
          exact hf k' le_rfl (by omega) ⟨k, v, hm, by omega, by omega⟩
        by_contra hge
        refine hg.noPrev rfl k v hm hlt (fun j w hj hkj => ?_) (by omega)
        have := (hc k v hm).2 j w hj hkj
        omega
      · exact (hc k v hm).2 _ _ hlo' hlt
    · exact (hc k v hm).2 _ _ hm' hlt

/-! ## What `carve` leaves -/

theorem apart_erase {m : Extents} (ha : m.Apart) (b : ℕ) : Apart (m.erase b) :=
  fun k v k' v' hk hk' hlt hv' =>
    ha k v k' v' (OrdMap.has_erase.mp hk).1 (OrdMap.has_erase.mp hk').1 hlt hv'

theorem within_erase {m : Extents} {lo hi : ℕ} (hw : m.Within lo hi) (b : ℕ) :
    Within (m.erase b) lo hi :=
  fun k v hk => hw k v (OrdMap.has_erase.mp hk).1

theorem canonical_erase {m : Extents} (hc : m.Canonical) (b : ℕ) : Canonical (m.erase b) :=
  fun k v hk => ⟨(hc k v (OrdMap.has_erase.mp hk).1).1, fun k' v' hk' hlt =>
    (hc k v (OrdMap.has_erase.mp hk).1).2 k' v' (OrdMap.has_erase.mp hk').1 hlt⟩

theorem covers_erase {m : Extents} (ha : m.Apart) {b n : ℕ} (hb : m.Has b n) (x : ℕ) :
    Covers (m.erase b) x ↔ m.Covers x ∧ ¬(b ≤ x ∧ x < b + n) := by
  constructor
  · rintro ⟨k, v, hk, hx⟩
    obtain ⟨hm, hne⟩ := OrdMap.has_erase.mp hk
    refine ⟨⟨k, v, hm, hx⟩, fun hx' => ?_⟩
    rcases lt_or_gt_of_ne hne with hlt | hlt
    · have := ha _ _ _ _ hm hb hlt (by omega)
      omega
    · have := ha _ _ _ _ hb hm hlt (by omega)
      omega
  · rintro ⟨⟨k, v, hk, hx⟩, hx'⟩
    refine ⟨k, v, OrdMap.has_erase.mpr ⟨hk, ?_⟩, hx⟩
    rintro rfl
    obtain rfl := hk.unique hb
    exact hx' hx

private theorem fresh_rest {m : Extents} (ha : m.Apart) {b n : ℕ} (hb : m.Has b n) (bytes : ℕ) :
    Fresh (m.erase b) (b + bytes) (n - bytes) := by
  intro x hx hx' hc
  exact ((covers_erase ha hb x).mp hc).2 ⟨by omega, by omega⟩

/-- A carve takes the front of the extent and nothing else. -/
theorem covers_carve {m : Extents} (ha : m.Apart) {b n bytes : ℕ} (hb : m.Has b n)
    (hle : bytes ≤ n) (x : ℕ) :
    (carve m b n bytes).Covers x ↔ m.Covers x ∧ ¬(b ≤ x ∧ x < b + bytes) := by
  have hin : b ≤ x ∧ x < b + n → m.Covers x := fun hx => ⟨b, n, hb, hx⟩
  unfold carve
  split
  · rw [covers_give (fresh_rest ha hb bytes), covers_erase ha hb]
    constructor
    · rintro (⟨hc, hx⟩ | hx)
      · exact ⟨hc, by omega⟩
      · exact ⟨hin (by omega), by omega⟩
    · rintro ⟨hc, hx⟩
      by_cases hx' : b ≤ x ∧ x < b + n
      · exact .inr (by omega)
      · exact .inl ⟨hc, hx'⟩
  · rw [covers_erase ha hb, show bytes = n by omega]

theorem apart_carve {m : Extents} (ha : m.Apart) {b n bytes : ℕ} (hb : m.Has b n) :
    (carve m b n bytes).Apart := by
  unfold carve
  split
  · exact apart_give (apart_erase ha b) (fresh_rest ha hb bytes)
  · exact apart_erase ha b

theorem within_carve {m : Extents} {lo hi b n bytes : ℕ} (hw : m.Within lo hi) (hb : m.Has b n) :
    (carve m b n bytes).Within lo hi := by
  have := hw b n hb
  unfold carve
  split
  · exact within_give (within_erase hw b) (by omega) (by omega)
  · exact within_erase hw b

theorem canonical_carve {m : Extents} (hc : m.Canonical) {b n bytes : ℕ} (hb : m.Has b n) :
    (carve m b n bytes).Canonical := by
  unfold carve
  split
  · exact canonical_give (canonical_erase hc b) (by omega) (fresh_rest hc.apart hb bytes)
  · exact canonical_erase hc b

/-- The extents of a list after a carve begin where extents began before, or where the rest does. -/
theorem has_carve {m : Extents} {b n bytes k v : ℕ} (h : (carve m b n bytes).Has k v) :
    bytes < n ∧ k = b + bytes ∨ k ≠ b ∧ ∃ w, m.Has k w := by
  unfold carve at h
  split at h
  · rename_i hlt
    by_cases hk : k = b + bytes
    · exact .inl ⟨hlt, hk⟩
    · rcases has_give h with hk' | ⟨w, hw⟩
      · exact absurd hk' hk
      · obtain ⟨hw, hne⟩ := OrdMap.has_erase.mp hw
        exact .inr ⟨hne, w, hw⟩
  · obtain ⟨hw, hne⟩ := OrdMap.has_erase.mp h
    exact .inr ⟨hne, v, hw⟩

/-! ## Canonical lists -/

theorem canonical_empty : Canonical OrdMap.empty := by
  intro b n h
  simp at h

theorem canonical_single {base size : ℕ} (hs : 0 < size) : (single base size).Canonical := by
  intro b n h
  obtain ⟨rfl, rfl⟩ : b = base ∧ n = size := by simpa [single] using h
  refine ⟨hs, fun b' n' h' hlt => ?_⟩
  obtain ⟨rfl, -⟩ : b' = b ∧ n' = n := by simpa [single] using h'
  omega

private theorem Canonical.has_of_covers {m m' : Extents} (hc : m.Canonical) (hc' : m'.Canonical)
    (h : ∀ x, m.Covers x ↔ m'.Covers x) {b n : ℕ} (hb : m.Has b n) : m'.Has b n := by
  -- the ends of an extent are where the points covered begin and stop
  have hn := (hc b n hb).1
  have hstart : ¬m.Covers (b - 1) ∨ b = 0 := by
    by_contra hcov
    push Not at hcov
    obtain ⟨⟨b', n', hb', hx⟩, hne⟩ := hcov
    have := (hc b' n' hb').2 b n hb (by omega)
    omega
  have hstop : ¬m.Covers (b + n) := by
    rintro ⟨b', n', hb', hx⟩
    rcases lt_trichotomy b b' with hlt | rfl | hlt
    · have := (hc b n hb).2 b' n' hb' hlt
      omega
    · obtain rfl := hb.unique hb'
      omega
    · have := (hc b' n' hb').2 b n hb hlt
      omega
  obtain ⟨b', n', hb', hx⟩ := (h b).mp ⟨b, n, hb, le_rfl, by omega⟩
  obtain rfl : b' = b := by
    by_contra hne
    rcases hstart with hs | rfl
    · exact hs ((h (b - 1)).mpr ⟨b', n', hb', by omega, by omega⟩)
    · omega
  rcases lt_trichotomy n n' with hlt | rfl | hlt
  · exact absurd ((h (b' + n)).mpr ⟨b', n', hb', by omega, by omega⟩) hstop
  · exact hb'
  · exfalso
    obtain ⟨b'', n'', hb'', hx''⟩ := (h (b' + n')).mp ⟨b', n, hb, by omega, by omega⟩
    rcases lt_trichotomy b' b'' with hlt' | rfl | hlt'
    · have := (hc' b' n' hb').2 b'' n'' hb'' hlt'
      omega
    · obtain rfl := hb'.unique hb''
      omega
    · have := (hc' b'' n'' hb'').2 b' n' hb' hlt'
      omega

/-- A canonical list is determined by the points it covers. -/
theorem Canonical.ext {m m' : Extents} (hc : m.Canonical) (hc' : m'.Canonical)
    (h : ∀ x, m.Covers x ↔ m'.Covers x) : m = m' :=
  OrdMap.ext fun _ _ =>
    ⟨hc.has_of_covers hc' h, hc'.has_of_covers hc fun x => (h x).symm⟩

end Extents

end Grxcp
