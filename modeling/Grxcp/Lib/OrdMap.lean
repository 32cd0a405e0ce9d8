import Mathlib.Tactic
import Mathlib.Data.Prod.Lex

/-!
# Ordered maps

A finite map with ordered keys, searched by key from both sides: what `std::map` is to C++. A map is
the list of its entries in increasing order of the keys, so it is determined by what it holds
(`OrdMap.ext`). Every operation has one lemma that says what the map holds after it, and every search
one that says what it found; proofs above this file use these and never the list.

A map whose keys are pairs in lexicographic order falls apart into one map for each first component
(`OrdMap.fiber`), and an operation at a key is that operation on the one fiber.
-/

namespace Grxcp

/-- A map from ordered keys: its entries, in increasing order of the keys. -/
structure OrdMap (K V : Type*) [LinearOrder K] where
  entries : List (K × V)
  sorted : entries.Pairwise fun e e' => e.1 < e'.1

namespace OrdMap

variable {K V W : Type*} [LinearOrder K]

/-- The map holds a value at a key. -/
def Has (m : OrdMap K V) (k : K) (v : V) : Prop :=
  (k, v) ∈ m.entries

instance [DecidableEq V] (m : OrdMap K V) (k : K) (v : V) : Decidable (m.Has k v) :=
  inferInstanceAs (Decidable ((k, v) ∈ m.entries))

/-- The map with nothing in it. -/
def empty : OrdMap K V :=
  ⟨[], .nil⟩

instance : Inhabited (OrdMap K V) := ⟨empty⟩

/-- The value at a key. -/
def find? (m : OrdMap K V) (k : K) : Option V :=
  (m.entries.find? fun e => e.1 = k).map (·.2)

/-- The entries that pass a test. -/
def filter (m : OrdMap K V) (p : K → V → Bool) : OrdMap K V :=
  ⟨m.entries.filter fun e => p e.1 e.2, m.sorted.filter _⟩

/-- The map without a key. -/
def erase (m : OrdMap K V) (k : K) : OrdMap K V :=
  m.filter fun k' _ => k' ≠ k

/-- The map with a value at a key, whatever was there. -/
def insert (m : OrdMap K V) (k : K) (v : V) : OrdMap K V where
  entries := m.entries.filter (fun e => e.1 < k) ++ (k, v) :: m.entries.filter (fun e => k < e.1)
  sorted := by
    rw [List.pairwise_append, List.pairwise_cons]
    refine ⟨m.sorted.filter _, ⟨?_, m.sorted.filter _⟩, ?_⟩
    · intro e he
      simpa using (List.mem_filter.mp he).2
    · intro e he e' he'
      have hk : e.1 < k := by simpa using (List.mem_filter.mp he).2
      obtain rfl | he' := List.mem_cons.mp he'
      · exact hk
      · have hk' : k < e'.1 := by simpa using (List.mem_filter.mp he').2
        exact hk.trans hk'

/-- The values changed, each by its key. -/
def map (m : OrdMap K V) (f : K → V → W) : OrdMap K W :=
  ⟨m.entries.map fun e => (e.1, f e.1 e.2), m.sorted.map _ fun _ _ h => h⟩

/-- The first entry at a key or above it (`lower_bound`). -/
def lowerBound (m : OrdMap K V) (k : K) : Option (K × V) :=
  m.entries.find? fun e => k ≤ e.1

/-- The last entry below a key: the one before `lower_bound`. -/
def below (m : OrdMap K V) (k : K) : Option (K × V) :=
  (m.entries.filter fun e => e.1 < k).getLast?

/-- The last entry at a key or below it: the one before `upper_bound`. -/
def atMost (m : OrdMap K V) (k : K) : Option (K × V) :=
  (m.entries.filter fun e => e.1 ≤ k).getLast?

/-- The entry with the least value under `top` among those that pass a test, and the first of them
where several have it: a search through the map in order that keeps the best so far. -/
def firstLeast [LinearOrder V] (m : OrdMap K V) (p : K → V → Bool) (top : V) : Option (K × V) :=
  m.entries.foldl
    (fun best e => if p e.1 e.2 && e.2 < (best.map (·.2)).getD top then some e else best) none

/-- The better of two search results: the second only if its value is less. -/
def better [LinearOrder V] (best found : Option (K × V)) (top : V) : Option (K × V) :=
  match found with
  | some e => if e.2 < (best.map (·.2)).getD top then some e else best
  | none => best

/-! ## A map is what it holds -/

theorem Has.unique {m : OrdMap K V} {k : K} {v v' : V} (h : m.Has k v) (h' : m.Has k v') :
    v = v' := by
  have : Std.Symm fun e e' : K × V => e.1 ≠ e'.1 := ⟨fun _ _ h => h.symm⟩
  have hne : m.entries.Pairwise fun e e' => e.1 ≠ e'.1 := m.sorted.imp fun h => ne_of_lt h
  by_contra hv
  exact hne.forall h h' (fun he => hv (Prod.mk.inj he).2) rfl

/-- Two maps that hold the same are the same. -/
theorem ext {m m' : OrdMap K V} (h : ∀ k v, m.Has k v ↔ m'.Has k v) : m = m' := by
  have hanti : Std.Antisymm fun e e' : K × V => e.1 < e'.1 :=
    ⟨fun _ _ h h' => absurd h' (lt_asymm h)⟩
  have hirr : Std.Irrefl fun e e' : K × V => e.1 < e'.1 := ⟨fun _ h => lt_irrefl _ h⟩
  have hentries : m.entries = m'.entries :=
    m.sorted.eq_of_mem_iff m'.sorted fun e => h e.1 e.2
  cases m
  cases m'
  cases hentries
  rfl

theorem find?_eq_some_iff {m : OrdMap K V} {k : K} {v : V} : m.find? k = some v ↔ m.Has k v := by
  unfold find?
  rw [Option.map_eq_some_iff]
  constructor
  · rintro ⟨⟨k', v'⟩, hf, rfl⟩
    have hk : k' = k := by simpa using List.find?_some hf
    exact hk ▸ List.mem_of_find?_eq_some hf
  · intro h
    obtain ⟨⟨k', v'⟩, hf⟩ : ∃ e, m.entries.find? (fun e => decide (e.1 = k)) = some e := by
      rw [← Option.isSome_iff_exists, List.find?_isSome]
      exact ⟨_, h, by simp⟩
    have hk : k' = k := by simpa using List.find?_some hf
    have hm : m.Has k' v' := List.mem_of_find?_eq_some hf
    exact ⟨_, hf, (hk ▸ hm).unique h⟩

theorem find?_eq_none_iff {m : OrdMap K V} {k : K} : m.find? k = none ↔ ∀ v, ¬m.Has k v := by
  constructor
  · intro h v hv
    rw [find?_eq_some_iff.mpr hv] at h
    cases h
  · intro h
    by_contra hne
    obtain ⟨v, hv⟩ := Option.ne_none_iff_exists'.mp hne
    exact h v (find?_eq_some_iff.mp hv)

@[simp] theorem not_has_empty (k : K) (v : V) : ¬(empty : OrdMap K V).Has k v :=
  List.not_mem_nil

@[simp] theorem has_filter {m : OrdMap K V} {p : K → V → Bool} {k : K} {v : V} :
    (m.filter p).Has k v ↔ m.Has k v ∧ p k v = true :=
  List.mem_filter

@[simp] theorem has_erase {m : OrdMap K V} {k k' : K} {v : V} :
    (m.erase k).Has k' v ↔ m.Has k' v ∧ k' ≠ k := by
  simp [erase]

@[simp] theorem has_insert {m : OrdMap K V} {k k' : K} {v v' : V} :
    (m.insert k v).Has k' v' ↔ k' = k ∧ v' = v ∨ k' ≠ k ∧ m.Has k' v' := by
  unfold Has insert
  rw [List.mem_append, List.mem_cons, List.mem_filter, List.mem_filter]
  simp only [decide_eq_true_eq, Prod.mk.injEq]
  constructor
  · rintro (⟨h, hlt⟩ | h | ⟨h, hlt⟩)
    · exact .inr ⟨ne_of_lt hlt, h⟩
    · exact .inl h
    · exact .inr ⟨ne_of_gt hlt, h⟩
  · rintro (h | ⟨hne, h⟩)
    · exact .inr (.inl h)
    · rcases lt_or_gt_of_ne hne with hlt | hlt
      · exact .inl ⟨h, hlt⟩
      · exact .inr (.inr ⟨h, hlt⟩)

theorem find?_insert (m : OrdMap K V) (k k' : K) (v : V) :
    (m.insert k v).find? k' = if k' = k then some v else m.find? k' := by
  split
  · next h => exact find?_eq_some_iff.mpr (has_insert.mpr (.inl ⟨h, rfl⟩))
  · next h =>
    refine Option.ext fun w => ?_
    rw [find?_eq_some_iff, find?_eq_some_iff, has_insert]
    exact ⟨fun hw => hw.elim (fun hw => absurd hw.1 h) And.right, fun hw => .inr ⟨h, hw⟩⟩

@[simp] theorem has_map {m : OrdMap K V} {f : K → V → W} {k : K} {w : W} :
    (m.map f).Has k w ↔ ∃ v, m.Has k v ∧ f k v = w := by
  unfold Has map
  rw [List.mem_map]
  constructor
  · rintro ⟨⟨k', v⟩, h, he⟩
    obtain ⟨rfl, rfl⟩ := Prod.mk.inj he
    exact ⟨v, h, rfl⟩
  · rintro ⟨v, h, rfl⟩
    exact ⟨(k, v), h, rfl⟩

theorem map_insert (m : OrdMap K V) (f : K → V → W) (k : K) (v : V) :
    (m.insert k v).map f = (m.map f).insert k (f k v) := by
  refine ext fun k' w => ?_
  simp only [has_map, has_insert]
  constructor
  · rintro ⟨v', ⟨rfl, rfl⟩ | ⟨hne, hv'⟩, rfl⟩
    · exact .inl ⟨rfl, rfl⟩
    · exact .inr ⟨hne, v', hv', rfl⟩
  · rintro (⟨rfl, rfl⟩ | ⟨hne, v', hv', rfl⟩)
    · exact ⟨v, .inl ⟨rfl, rfl⟩, rfl⟩
    · exact ⟨v', .inr ⟨hne, hv'⟩, rfl⟩

theorem map_erase (m : OrdMap K V) (f : K → V → W) (k : K) :
    (m.erase k).map f = (m.map f).erase k := by
  refine ext fun k' w => ?_
  simp only [has_map, has_erase]
  constructor
  · rintro ⟨v, ⟨hv, hne⟩, rfl⟩
    exact ⟨⟨v, hv, rfl⟩, hne⟩
  · rintro ⟨⟨v, hv, rfl⟩, hne⟩
    exact ⟨v, ⟨hv, hne⟩, rfl⟩

theorem find?_map (m : OrdMap K V) (f : K → V → W) (k : K) :
    (m.map f).find? k = (m.find? k).map (f k) := by
  rcases hf : m.find? k with _ | v
  · refine find?_eq_none_iff.mpr fun w hw => ?_
    obtain ⟨v, hv, -⟩ := has_map.mp hw
    exact find?_eq_none_iff.mp hf v hv
  · exact find?_eq_some_iff.mpr (has_map.mpr ⟨v, find?_eq_some_iff.mp hf, rfl⟩)

/-! ## Searching -/

theorem lowerBound_eq_some_iff {m : OrdMap K V} {k k' : K} {v : V} :
    m.lowerBound k = some (k', v) ↔
      m.Has k' v ∧ k ≤ k' ∧ ∀ j w, m.Has j w → k ≤ j → k' ≤ j := by
  unfold lowerBound Has
  constructor
  · intro h
    obtain ⟨hk, as, bs, he, has⟩ := List.find?_eq_some_iff_append.mp h
    refine ⟨List.mem_of_find?_eq_some h, by simpa using hk, fun j w hj hkj => ?_⟩
    rw [he] at hj
    obtain hj | hj := List.mem_append.mp hj
    · have := has _ hj
      simp [hkj] at this
    obtain hj | hj := List.mem_cons.mp hj
    · exact (congrArg Prod.fst hj).ge
    · have hs := m.sorted
      rw [he] at hs
      exact (List.rel_of_pairwise_cons (List.pairwise_append.mp hs).2.1 hj).le
  · rintro ⟨hm, hk, hmin⟩
    obtain ⟨⟨k'', v'⟩, hf⟩ : ∃ e, m.entries.find? (fun e => decide (k ≤ e.1)) = some e := by
      rw [← Option.isSome_iff_exists, List.find?_isSome]
      exact ⟨_, hm, by simpa using hk⟩
    have hm' : m.Has k'' v' := List.mem_of_find?_eq_some hf
    have hk' : k ≤ k'' := by simpa using List.find?_some hf
    obtain ⟨-, as, bs, he, has⟩ := List.find?_eq_some_iff_append.mp hf
    have hle : k'' ≤ k' := by
      have hj := hm
      rw [he] at hj
      obtain hj | hj := List.mem_append.mp hj
      · have := has _ hj
        simp [hk] at this
      obtain hj | hj := List.mem_cons.mp hj
      · exact (congrArg Prod.fst hj).ge
      · have hs := m.sorted
        rw [he] at hs
        exact (List.rel_of_pairwise_cons (List.pairwise_append.mp hs).2.1 hj).le
    obtain rfl : k'' = k' := le_antisymm hle (hmin k'' v' hm' hk')
    rw [hf, hm'.unique hm]

theorem lowerBound_eq_none_iff {m : OrdMap K V} {k : K} :
    m.lowerBound k = none ↔ ∀ j w, m.Has j w → j < k := by
  unfold lowerBound Has
  simp [List.find?_eq_none]

private theorem getLast?_filter {m : OrdMap K V} {p : K → Bool} {k' : K} {v : V} :
    (m.entries.filter fun e => p e.1).getLast? = some (k', v) ↔
      m.Has k' v ∧ p k' = true ∧ ∀ j w, m.Has j w → p j = true → j ≤ k' := by
  have hs : (m.entries.filter fun e => p e.1).Pairwise fun e e' => e.1 < e'.1 := m.sorted.filter _
  have hmem : ∀ j w, (j, w) ∈ m.entries.filter (fun e => p e.1) ↔ m.Has j w ∧ p j = true :=
    fun j w => List.mem_filter
  constructor
  · intro h
    obtain ⟨hm, hp⟩ := (hmem k' v).mp (List.mem_of_getLast? h)
    refine ⟨hm, hp, fun j w hj hpj => ?_⟩
    obtain ⟨ys, hys⟩ := List.getLast?_eq_some_iff.mp h
    have hj' := (hmem j w).mpr ⟨hj, hpj⟩
    rw [hys] at hj' hs
    obtain hj' | hj' := List.mem_append.mp hj'
    · exact ((List.pairwise_append.mp hs).2.2 _ hj' _ (List.mem_singleton_self _)).le
    · exact (congrArg Prod.fst (List.mem_singleton.mp hj')).le
  · rintro ⟨hm, hp, hmax⟩
    have hin := (hmem k' v).mpr ⟨hm, hp⟩
    obtain ⟨⟨k'', v'⟩, hl⟩ : ∃ e, (m.entries.filter fun e => p e.1).getLast? = some e :=
      Option.ne_none_iff_exists'.mp fun hn =>
        List.ne_nil_of_mem hin (List.getLast?_eq_none_iff.mp hn)
    obtain ⟨hm', hp'⟩ := (hmem k'' v').mp (List.mem_of_getLast? hl)
    obtain ⟨ys, hys⟩ := List.getLast?_eq_some_iff.mp hl
    have hle : k' ≤ k'' := by
      rw [hys] at hin hs
      obtain hin | hin := List.mem_append.mp hin
      · exact ((List.pairwise_append.mp hs).2.2 _ hin _ (List.mem_singleton_self _)).le
      · exact (congrArg Prod.fst (List.mem_singleton.mp hin)).le
    obtain rfl : k'' = k' := le_antisymm (hmax k'' v' hm' hp') hle
    rw [hl, hm'.unique hm]

private theorem getLast?_filter_none {m : OrdMap K V} {p : K → Bool} :
    (m.entries.filter fun e => p e.1).getLast? = none ↔
      ∀ j w, m.Has j w → p j = false := by
  rw [List.getLast?_eq_none_iff, List.filter_eq_nil_iff]
  constructor
  · intro h j w hj
    simpa using h _ hj
  · rintro h ⟨j, w⟩ hj
    simp [h j w hj]

theorem below_eq_some_iff {m : OrdMap K V} {k k' : K} {v : V} :
    m.below k = some (k', v) ↔ m.Has k' v ∧ k' < k ∧ ∀ j w, m.Has j w → j < k → j ≤ k' := by
  unfold below
  rw [getLast?_filter (p := fun j => decide (j < k))]
  simp

theorem below_eq_none_iff {m : OrdMap K V} {k : K} :
    m.below k = none ↔ ∀ j w, m.Has j w → k ≤ j := by
  unfold below
  rw [getLast?_filter_none (p := fun j => decide (j < k))]
  simp

theorem atMost_eq_some_iff {m : OrdMap K V} {k k' : K} {v : V} :
    m.atMost k = some (k', v) ↔ m.Has k' v ∧ k' ≤ k ∧ ∀ j w, m.Has j w → j ≤ k → j ≤ k' := by
  unfold atMost
  rw [getLast?_filter (p := fun j => decide (j ≤ k))]
  simp

theorem atMost_eq_none_iff {m : OrdMap K V} {k : K} :
    m.atMost k = none ↔ ∀ j w, m.Has j w → k < j := by
  unfold atMost
  rw [getLast?_filter_none (p := fun j => decide (j ≤ k))]
  simp

/-- What the search has kept after some of the entries. -/
private theorem foldl_least [LinearOrder V] (p : K → V → Bool) (top : V) (es : List (K × V))
    (hs : es.Pairwise fun e e' => e.1 < e'.1) :
    (∃ e ∈ es, es.foldl (fun best e =>
        if p e.1 e.2 && e.2 < (best.map (·.2)).getD top then some e else best) none = some e ∧
      p e.1 e.2 = true ∧ e.2 < top ∧
      ∀ e' ∈ es, p e'.1 e'.2 = true → e.2 ≤ e'.2 ∧ (e'.2 = e.2 → e.1 ≤ e'.1)) ∨
    (es.foldl (fun best e =>
        if p e.1 e.2 && e.2 < (best.map (·.2)).getD top then some e else best) none = none ∧
      ∀ e' ∈ es, p e'.1 e'.2 = true → top ≤ e'.2) := by
  induction es using List.reverseRecOn with
  | nil => exact .inr ⟨rfl, by simp⟩
  | append_singleton es e ih =>
    obtain ⟨hs', -, hlt⟩ := List.pairwise_append.mp hs
    have hlt : ∀ e' ∈ es, e'.1 < e.1 := fun e' he' => hlt e' he' e (List.mem_singleton_self e)
    rw [List.foldl_append, List.foldl_cons, List.foldl_nil]
    obtain ⟨b, hb, hf, hp, htop, hmin⟩ | ⟨hf, hnone⟩ := ih hs'
    · rw [hf]
      simp only [Option.map_some, Option.getD_some]
      by_cases hbetter : (p e.1 e.2 && decide (e.2 < b.2)) = true
      · rw [if_pos hbetter]
        simp only [Bool.and_eq_true, decide_eq_true_eq] at hbetter
        refine .inl ⟨e, by simp, rfl, hbetter.1, hbetter.2.trans htop, fun e' he' hp' => ?_⟩
        obtain he' | he' := List.mem_append.mp he'
        · have hle := (hmin e' he' hp').1
          exact ⟨hbetter.2.le.trans hle,
            fun heq => absurd (heq ▸ hle) (not_le.mpr hbetter.2)⟩
        · rw [List.mem_singleton.mp he']
          exact ⟨le_rfl, fun _ => le_rfl⟩
      · rw [if_neg hbetter]
        simp only [Bool.and_eq_true, decide_eq_true_eq, not_and, not_lt] at hbetter
        refine .inl ⟨b, List.mem_append_left _ hb, rfl, hp, htop, fun e' he' hp' => ?_⟩
        obtain he' | he' := List.mem_append.mp he'
        · exact hmin e' he' hp'
        · obtain rfl := List.mem_singleton.mp he'
          exact ⟨hbetter hp', fun _ => (hlt b hb).le⟩
    · rw [hf]
      simp only [Option.map_none, Option.getD_none]
      by_cases hbetter : (p e.1 e.2 && decide (e.2 < top)) = true
      · rw [if_pos hbetter]
        simp only [Bool.and_eq_true, decide_eq_true_eq] at hbetter
        refine .inl ⟨e, by simp, rfl, hbetter.1, hbetter.2, fun e' he' hp' => ?_⟩
        obtain he' | he' := List.mem_append.mp he'
        · have hle := hnone e' he' hp'
          exact ⟨hbetter.2.le.trans hle, fun heq => absurd (heq ▸ hle) (not_le.mpr hbetter.2)⟩
        · rw [List.mem_singleton.mp he']
          exact ⟨le_rfl, fun _ => le_rfl⟩
      · rw [if_neg hbetter]
        simp only [Bool.and_eq_true, decide_eq_true_eq, not_and, not_lt] at hbetter
        refine .inr ⟨rfl, fun e' he' hp' => ?_⟩
        obtain he' | he' := List.mem_append.mp he'
        · exact hnone e' he' hp'
        · obtain rfl := List.mem_singleton.mp he'
          exact hbetter hp'

theorem firstLeast_eq_some_iff [LinearOrder V] {m : OrdMap K V} {p : K → V → Bool} {top : V}
    {k : K} {v : V} :
    m.firstLeast p top = some (k, v) ↔ m.Has k v ∧ p k v = true ∧ v < top ∧
      ∀ j w, m.Has j w → p j w = true → v ≤ w ∧ (w = v → k ≤ j) := by
  unfold firstLeast Has
  obtain ⟨⟨k', v'⟩, he, hf, hp, htop, hmin⟩ | ⟨hf, hnone⟩ :=
    foldl_least p top m.entries m.sorted
  · rw [hf]
    constructor
    · intro h
      cases h
      exact ⟨he, hp, htop, fun j w hj => hmin (j, w) hj⟩
    · rintro ⟨hm, hp', htop', hmin'⟩
      have h₁ := hmin (k, v) hm hp'
      have h₂ := hmin' k' v' he hp
      obtain rfl : v = v' := le_antisymm h₂.1 h₁.1
      obtain rfl : k = k' := le_antisymm (h₂.2 rfl) (h₁.2 rfl)
      rfl
  · rw [hf]
    constructor
    · intro h
      cases h
    · rintro ⟨hm, hp, htop, -⟩
      exact absurd (hnone (k, v) hm hp) (not_le.mpr htop)

theorem firstLeast_eq_none_iff [LinearOrder V] {m : OrdMap K V} {p : K → V → Bool} {top : V} :
    m.firstLeast p top = none ↔ ∀ j w, m.Has j w → p j w = true → top ≤ w := by
  constructor
  · intro h
    obtain ⟨e, he, hf, -⟩ | ⟨-, hnone⟩ := foldl_least p top m.entries m.sorted
    · unfold firstLeast at h
      rw [h] at hf
      cases hf
    · exact fun j w hj => hnone (j, w) hj
  · intro h
    by_contra hne
    obtain ⟨⟨k, v⟩, hf⟩ := Option.ne_none_iff_exists'.mp hne
    obtain ⟨hm, hp, htop, -⟩ := firstLeast_eq_some_iff.mp hf
    exact absurd (h k v hm hp) (not_le.mpr htop)

omit [LinearOrder K] in
theorem better_eq_some [LinearOrder V] {best found : Option (K × V)} {top : V} {e : K × V}
    (h : better best found top = some e) : best = some e ∨ found = some e := by
  unfold better at h
  split at h
  · split at h
    · exact .inr h
    · exact .inl h
  · exact .inl h

theorem better_firstLeast_eq_none [LinearOrder V] {m : OrdMap K V} {p : K → V → Bool} {top : V}
    {best : Option (K × V)} (h : better best (m.firstLeast p top) top = none) :
    best = none ∧ m.firstLeast p top = none := by
  rcases hf : m.firstLeast p top with _ | ⟨k, v⟩
  · rw [hf] at h
    exact ⟨h, rfl⟩
  · have htop := (firstLeast_eq_some_iff.mp hf).2.2.1
    rw [hf] at h
    cases best with
    | none => simp [better, htop] at h
    | some b =>
      simp only [better] at h
      split at h <;> cases h

omit [LinearOrder K] in
theorem better_map [LinearOrder V] {K' : Type*} (f : K → K')
    (best found : Option (K × V)) (top : V) :
    better (best.map fun e => (f e.1, e.2)) (found.map fun e => (f e.1, e.2)) top =
      (better best found top).map fun e => (f e.1, e.2) := by
  cases found with
  | none => rfl
  | some e =>
    have htop : ((best.map fun e => (f e.1, e.2)).map (·.2)).getD top =
        (best.map (·.2)).getD top := by cases best <;> rfl
    simp only [better, Option.map_some, htop]
    split <;> rfl

/-- The search for entries that pass one of two tests, where those that pass the first come first. -/
theorem firstLeast_or [LinearOrder V] (m : OrdMap K V) {p q : K → V → Bool} (top : V)
    (hpq : ∀ k v k' v', p k v = true → q k' v' = true → k < k') :
    m.firstLeast (fun k v => p k v || q k v) top =
      better (m.firstLeast p top) (m.firstLeast q top) top := by
  rcases hq : m.firstLeast q top with _ | ⟨k', v'⟩
  · have hq := firstLeast_eq_none_iff.mp hq
    simp only [better]
    rcases hp : m.firstLeast p top with _ | ⟨k, v⟩
    · have hp := firstLeast_eq_none_iff.mp hp
      refine firstLeast_eq_none_iff.mpr fun j w hj ht => ?_
      rcases Bool.or_eq_true_iff.mp ht with ht | ht
      · exact hp j w hj ht
      · exact hq j w hj ht
    · obtain ⟨hk, hpk, htop, hmin⟩ := firstLeast_eq_some_iff.mp hp
      refine firstLeast_eq_some_iff.mpr ⟨hk, by simp [hpk], htop, fun j w hj ht => ?_⟩
      rcases Bool.or_eq_true_iff.mp ht with ht | ht
      · exact hmin j w hj ht
      · exact ⟨htop.le.trans (hq j w hj ht), fun _ => (hpq k v j w hpk ht).le⟩
  · obtain ⟨hk', hqk', htop', hmin'⟩ := firstLeast_eq_some_iff.mp hq
    rcases hp : m.firstLeast p top with _ | ⟨k, v⟩
    · have hp := firstLeast_eq_none_iff.mp hp
      simp only [better, Option.map_none, Option.getD_none, htop', if_true]
      refine firstLeast_eq_some_iff.mpr ⟨hk', by simp [hqk'], htop', fun j w hj ht => ?_⟩
      rcases Bool.or_eq_true_iff.mp ht with ht | ht
      · exact ⟨htop'.le.trans (hp j w hj ht),
          fun he => absurd (hp j w hj ht) (by rw [he]; exact not_le.mpr htop')⟩
      · exact hmin' j w hj ht
    · obtain ⟨hk, hpk, htop, hmin⟩ := firstLeast_eq_some_iff.mp hp
      simp only [better, Option.map_some, Option.getD_some]
      by_cases hlt : v' < v
      · rw [if_pos hlt]
        refine firstLeast_eq_some_iff.mpr ⟨hk', by simp [hqk'], htop', fun j w hj ht => ?_⟩
        rcases Bool.or_eq_true_iff.mp ht with ht | ht
        · have hle := (hmin j w hj ht).1
          exact ⟨hlt.le.trans hle, fun he => absurd (he ▸ hle) (not_le.mpr hlt)⟩
        · exact hmin' j w hj ht
      · rw [if_neg hlt]
        refine firstLeast_eq_some_iff.mpr ⟨hk, by simp [hpk], htop, fun j w hj ht => ?_⟩
        rcases Bool.or_eq_true_iff.mp ht with ht | ht
        · exact hmin j w hj ht
        · exact ⟨(not_lt.mp hlt).trans (hmin' j w hj ht).1, fun _ => (hpq k v j w hpk ht).le⟩

/-! ## Fibers -/

section Fiber

variable {A : Type*} [LinearOrder A]

/-- The part of a map at one first component of its keys. -/
def fiber (m : OrdMap (A ×ₗ K) V) (a : A) : OrdMap K V where
  entries := (m.entries.filter fun e => (ofLex e.1).1 = a).map fun e => ((ofLex e.1).2, e.2)
  sorted := by
    have hs := m.sorted.filter fun e => decide ((ofLex e.1).1 = a)
    rw [List.pairwise_map]
    refine hs.imp_of_mem fun {e e'} he he' hlt => ?_
    have ha : (ofLex e.1).1 = a := by simpa using (List.mem_filter.mp he).2
    have ha' : (ofLex e'.1).1 = a := by simpa using (List.mem_filter.mp he').2
    rcases Prod.Lex.lt_iff.mp hlt with h | ⟨-, h⟩
    · simp [ha, ha'] at h
    · exact h

@[simp] theorem has_fiber {m : OrdMap (A ×ₗ K) V} {a : A} {k : K} {v : V} :
    (m.fiber a).Has k v ↔ m.Has (toLex (a, k)) v := by
  unfold Has fiber
  rw [List.mem_map]
  constructor
  · rintro ⟨⟨j, w⟩, hj, he⟩
    obtain ⟨hm, ha⟩ := List.mem_filter.mp hj
    obtain ⟨rfl, rfl⟩ := Prod.mk.inj he
    have ha : (ofLex j).1 = a := by simpa using ha
    have hj : j = toLex (a, (ofLex j).2) := by rw [← ha]; rfl
    exact hj ▸ hm
  · intro h
    exact ⟨_, List.mem_filter.mpr ⟨h, by simp⟩, rfl⟩

theorem fiber_find? (m : OrdMap (A ×ₗ K) V) (a : A) (k : K) :
    (m.fiber a).find? k = m.find? (toLex (a, k)) := by
  rcases hf : m.find? (toLex (a, k)) with _ | v
  · exact find?_eq_none_iff.mpr fun v hv => find?_eq_none_iff.mp hf v (has_fiber.mp hv)
  · exact find?_eq_some_iff.mpr (has_fiber.mpr (find?_eq_some_iff.mp hf))

theorem fiber_insert_self (m : OrdMap (A ×ₗ K) V) (a : A) (k : K) (v : V) :
    (m.insert (toLex (a, k)) v).fiber a = (m.fiber a).insert k v := by
  refine ext fun k' v' => ?_
  simp

theorem fiber_insert_of_ne (m : OrdMap (A ×ₗ K) V) {a b : A} (h : b ≠ a) (k : K) (v : V) :
    (m.insert (toLex (a, k)) v).fiber b = m.fiber b := by
  refine ext fun k' v' => ?_
  simp [h]

theorem fiber_erase_self (m : OrdMap (A ×ₗ K) V) (a : A) (k : K) :
    (m.erase (toLex (a, k))).fiber a = (m.fiber a).erase k := by
  refine ext fun k' v' => ?_
  simp

theorem fiber_erase_of_ne (m : OrdMap (A ×ₗ K) V) {a b : A} (h : b ≠ a) (k : K) :
    (m.erase (toLex (a, k))).fiber b = m.fiber b := by
  refine ext fun k' v' => ?_
  simp [h]

/-- The first entry from a key on, in its own fiber or not at all. -/
theorem fiber_lowerBound (m : OrdMap (A ×ₗ K) V) (a : A) (k : K) :
    (m.fiber a).lowerBound k =
      match m.lowerBound (toLex (a, k)) with
      | some (j, v) => if (ofLex j).1 = a then some ((ofLex j).2, v) else none
      | none => none := by
  rcases hl : m.lowerBound (toLex (a, k)) with _ | ⟨j, v⟩
  · rw [lowerBound_eq_none_iff] at hl ⊢
    intro k' w hk'
    have hlt := hl _ _ (has_fiber.mp hk')
    simpa [Prod.Lex.toLex_lt_toLex] using hlt
  · obtain ⟨hm, hle, hmin⟩ := lowerBound_eq_some_iff.mp hl
    have hj : j = toLex ((ofLex j).1, (ofLex j).2) := rfl
    by_cases ha : (ofLex j).1 = a
    · simp only [ha, if_true]
      rw [lowerBound_eq_some_iff, has_fiber]
      rw [hj, ha] at hm hle
      refine ⟨hm, by simpa [Prod.Lex.toLex_le_toLex] using hle, fun k' w hk' hkk' => ?_⟩
      have hle' := hmin _ _ (has_fiber.mp hk') (by simpa [Prod.Lex.toLex_le_toLex] using hkk')
      rw [hj, ha] at hle'
      simpa [Prod.Lex.toLex_le_toLex] using hle'
    · simp only [ha, if_false]
      rw [lowerBound_eq_none_iff]
      intro k' w hk'
      by_contra hlt
      have hle' := hmin _ _ (has_fiber.mp hk')
        (by simpa [Prod.Lex.toLex_le_toLex] using not_lt.mp hlt)
      rw [hj] at hle hle'
      rw [Prod.Lex.toLex_le_toLex] at hle hle'
      rcases hle with h | ⟨h, -⟩
      · rcases hle' with h' | ⟨h', -⟩
        · exact absurd h' (lt_asymm h)
        · exact absurd h' (ne_of_gt h)
      · exact ha h.symm

/-- The last entry below a key, in its own fiber or not at all. -/
theorem fiber_below (m : OrdMap (A ×ₗ K) V) (a : A) (k : K) :
    (m.fiber a).below k =
      match m.below (toLex (a, k)) with
      | some (j, v) => if (ofLex j).1 = a then some ((ofLex j).2, v) else none
      | none => none := by
  rcases hl : m.below (toLex (a, k)) with _ | ⟨j, v⟩
  · rw [below_eq_none_iff] at hl ⊢
    intro k' w hk'
    have hle := hl _ _ (has_fiber.mp hk')
    simpa [Prod.Lex.toLex_le_toLex] using hle
  · obtain ⟨hm, hlt, hmax⟩ := below_eq_some_iff.mp hl
    have hj : j = toLex ((ofLex j).1, (ofLex j).2) := rfl
    by_cases ha : (ofLex j).1 = a
    · simp only [ha, if_true]
      rw [below_eq_some_iff, has_fiber]
      rw [hj, ha] at hm hlt
      refine ⟨hm, by simpa [Prod.Lex.toLex_lt_toLex] using hlt, fun k' w hk' hkk' => ?_⟩
      have hle' := hmax _ _ (has_fiber.mp hk') (by simpa [Prod.Lex.toLex_lt_toLex] using hkk')
      rw [hj, ha] at hle'
      simpa [Prod.Lex.toLex_le_toLex] using hle'
    · simp only [ha, if_false]
      rw [below_eq_none_iff]
      intro k' w hk'
      by_contra hlt'
      have hle' := hmax _ _ (has_fiber.mp hk')
        (by simpa [Prod.Lex.toLex_lt_toLex] using not_le.mp hlt')
      rw [hj] at hlt hle'
      rw [Prod.Lex.toLex_lt_toLex] at hlt
      rw [Prod.Lex.toLex_le_toLex] at hle'
      rcases hlt with h | ⟨h, -⟩
      · rcases hle' with h' | ⟨h', -⟩
        · exact absurd h' (lt_asymm h)
        · exact absurd h' (ne_of_gt h)
      · exact ha h

/-- The last entry at a key or below it, in its own fiber or not at all. -/
theorem fiber_atMost (m : OrdMap (A ×ₗ K) V) (a : A) (k : K) :
    (m.fiber a).atMost k =
      match m.atMost (toLex (a, k)) with
      | some (j, v) => if (ofLex j).1 = a then some ((ofLex j).2, v) else none
      | none => none := by
  rcases hl : m.atMost (toLex (a, k)) with _ | ⟨j, v⟩
  · rw [atMost_eq_none_iff] at hl ⊢
    intro k' w hk'
    have hlt := hl _ _ (has_fiber.mp hk')
    simpa [Prod.Lex.toLex_lt_toLex] using hlt
  · obtain ⟨hm, hle, hmax⟩ := atMost_eq_some_iff.mp hl
    have hj : j = toLex ((ofLex j).1, (ofLex j).2) := rfl
    by_cases ha : (ofLex j).1 = a
    · simp only [ha, if_true]
      rw [atMost_eq_some_iff, has_fiber]
      rw [hj, ha] at hm hle
      refine ⟨hm, by simpa [Prod.Lex.toLex_le_toLex] using hle, fun k' w hk' hkk' => ?_⟩
      have hle' := hmax _ _ (has_fiber.mp hk') (by simpa [Prod.Lex.toLex_le_toLex] using hkk')
      rw [hj, ha] at hle'
      simpa [Prod.Lex.toLex_le_toLex] using hle'
    · simp only [ha, if_false]
      rw [atMost_eq_none_iff]
      intro k' w hk'
      by_contra hlt
      have hle' := hmax _ _ (has_fiber.mp hk')
        (by simpa [Prod.Lex.toLex_le_toLex] using not_lt.mp hlt)
      rw [hj] at hle hle'
      rw [Prod.Lex.toLex_le_toLex] at hle hle'
      rcases hle with h | ⟨h, -⟩
      · rcases hle' with h' | ⟨h', -⟩
        · exact absurd h' (lt_asymm h)
        · exact absurd h' (ne_of_gt h)
      · exact ha h

/-- The search of a fiber is the search of the map for entries of that fiber. -/
theorem fiber_firstLeast [LinearOrder V] (m : OrdMap (A ×ₗ K) V) (a : A) (p : K → V → Bool)
    (top : V) :
    (m.fiber a).firstLeast p top =
      (m.firstLeast (fun k v => decide ((ofLex k).1 = a) && p (ofLex k).2 v) top).map
        fun e => ((ofLex e.1).2, e.2) := by
  rcases hf : m.firstLeast (fun k v => decide ((ofLex k).1 = a) && p (ofLex k).2 v) top
    with _ | ⟨j, v⟩
  · have hf := firstLeast_eq_none_iff.mp hf
    refine firstLeast_eq_none_iff.mpr fun k w hk hp => ?_
    exact hf (toLex (a, k)) w (has_fiber.mp hk) (by simpa using hp)
  · obtain ⟨hj, hp, htop, hmin⟩ := firstLeast_eq_some_iff.mp hf
    rw [Bool.and_eq_true, decide_eq_true_eq] at hp
    have hja : j = toLex (a, (ofLex j).2) := by rw [← hp.1]; rfl
    refine firstLeast_eq_some_iff.mpr ⟨has_fiber.mpr (hja ▸ hj), hp.2, htop, fun k w hk hpk => ?_⟩
    obtain ⟨hle, hfirst⟩ := hmin (toLex (a, k)) w (has_fiber.mp hk) (by simpa using hpk)
    refine ⟨hle, fun he => ?_⟩
    have hlex := hfirst he
    rw [hja] at hlex
    simpa [Prod.Lex.toLex_le_toLex] using hlex

end Fiber

end OrdMap

end Grxcp
