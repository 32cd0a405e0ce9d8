import Grxcp.Lib.Sweep

/-!
# The summary of a probe

`grxCycleSummarize` of `grx_cycles.h`, over the slots that a launch's warps have written.
-/

namespace Grxcp.Cycles

/-- A `uint64_t` cycle count. -/
abbrev Cycle := Fin (2 ^ 64)

/-- `grxCycleSlot`, whose `end` is `stop`. -/
structure CycleSlot where
  start : Cycle
  stop : Cycle
  core : Fin (2 ^ 32)
deriving DecidableEq

/-- `grxCycleSummary`. Its `int` counts are of slots that an `int` has counted. -/
structure CycleSummary where
  warps : ℤ := 0
  cores : ℤ := 0
  spanIsValid : ℤ := 0
  span : Cycle := 0
  busyMin : Cycle := 0
  busyMedian : Cycle := 0
  busyMax : Cycle := 0
  maxLive : ℤ := 0
  coreSkew : Cycle := 0
  spanCrossesCores : ℤ := 0
  crossCoreSpan : Cycle := 0
  firstStart : Cycle := 0
deriving DecidableEq

/-- What the loop over the slots gathers. -/
structure Gathered where
  busy : List Cycle := []
  edges : List (Cycle ×ₗ ℤ) := []
  core_first : List (Fin (2 ^ 32) × Cycle) := []
  first_start : Cycle := ⊤
  last_end : Cycle := 0

/-- The loop over `core_first`: the core's entry takes the earlier start, or there is a new one. -/
def noteCore : List (Fin (2 ^ 32) × Cycle) → CycleSlot → List (Fin (2 ^ 32) × Cycle)
  | [], s => [(s.core, s.start)]
  | c :: cores, s => if c.1 = s.core then (c.1, min c.2 s.start) :: cores else c :: noteCore cores s

/-- A slot. One that no warp reached is zero. -/
def Gathered.add (g : Gathered) (s : CycleSlot) : Gathered :=
  if s.stop = 0 ∧ s.start = 0 then g
  else
    { busy := g.busy ++ [s.stop - s.start]
      edges := g.edges ++ [toLex (s.start, 1), toLex (s.stop, -1)]
      core_first := noteCore g.core_first s
      first_start := min g.first_start s.start
      last_end := max g.last_end s.stop }

/-- What follows the loop. -/
def Gathered.summary (g : Gathered) : CycleSummary :=
  let busy := g.busy.insertionSort (· ≤ ·)
  if busy = [] then {}
  else
    let skew_lo := (g.core_first.map Prod.snd).foldl min ⊤
    let skew_hi := (g.core_first.map Prod.snd).foldl max 0
    let combined := g.last_end - g.first_start
    let one_core := g.core_first.length = 1
    { warps := busy.length
      cores := g.core_first.length
      spanIsValid := if one_core then 1 else 0
      span := if one_core then combined else 0
      busyMin := busy.headD 0
      busyMedian := busy.getD (busy.length / 2) 0
      busyMax := busy.getLastD 0
      maxLive := (Sweep.sweep (g.edges.insertionSort (· ≤ ·))).2
      coreSkew := skew_hi - skew_lo
      spanCrossesCores := if one_core then 0 else 1
      crossCoreSpan := combined
      firstStart := g.first_start }

/-- `grxCycleSummarize`. No slots stand for a null pointer, too. -/
def grxCycleSummarize (slots : List CycleSlot) : CycleSummary :=
  (slots.foldl Gathered.add {}).summary

/-! ## What it says -/

/-- A slot that a warp has reached. -/
def CycleSlot.Written (s : CycleSlot) : Prop :=
  ¬(s.stop = 0 ∧ s.start = 0)

instance (s : CycleSlot) : Decidable s.Written :=
  inferInstanceAs (Decidable (¬_))

/-- The slots that warps have reached. -/
def written (slots : List CycleSlot) : List CycleSlot :=
  slots.filter fun s => s.Written

/-- How many of them are live at a cycle. -/
def live (slots : List CycleSlot) (t : Cycle) : ℕ :=
  slots.countP fun s => s.start ≤ t ∧ t < s.stop

/-- The first starts of the cores. -/
def firstStarts (slots : List CycleSlot) : Set Cycle :=
  {f | ∃ c, IsLeast {x | ∃ s ∈ slots, s.core = c ∧ s.start = x} f}

/-- The value at a place, when sorted. -/
structure AtRank {α : Type*} [LinearOrder α] (l : List α) (k : ℕ) (x : α) : Prop where
  below : l.countP (· < x) ≤ k
  upTo : k < l.countP (· ≤ x)

/-- What a summary says of the slots that were reached, where there are some. -/
structure Describes (slots : List CycleSlot) (out : CycleSummary) : Prop where
  warps : out.warps = slots.length
  cores : out.cores = (slots.map (·.core)).toFinset.card
  spanIsValid : out.spanIsValid = if out.cores = 1 then 1 else 0
  spanCrossesCores : out.spanCrossesCores = if out.cores = 1 then 0 else 1
  firstStart : IsLeast {x | ∃ s ∈ slots, s.start = x} out.firstStart
  crossCoreSpan : ∃ last, IsGreatest {x | ∃ s ∈ slots, s.stop = x} last ∧
    out.crossCoreSpan = last - out.firstStart
  span : out.span = if out.cores = 1 then out.crossCoreSpan else 0
  busyMin : IsLeast {x | ∃ s ∈ slots, s.stop - s.start = x} out.busyMin
  busyMedian : AtRank (slots.map fun s => s.stop - s.start) (slots.length / 2) out.busyMedian
  busyMax : IsGreatest {x | ∃ s ∈ slots, s.stop - s.start = x} out.busyMax
  maxLive : IsGreatest (Set.range fun t => (live slots t : ℤ)) out.maxLive
  coreSkew : ∃ lo hi, IsLeast (firstStarts slots) lo ∧ IsGreatest (firstStarts slots) hi ∧
    out.coreSkew = hi - lo

/-! ## Order -/

section Order

variable {α : Type*} [LinearOrder α] {l : List α}

/-- The loop that keeps the least finds it. -/
theorem foldl_min_isLeast [OrderTop α] (hl : l ≠ []) : IsLeast {x | x ∈ l} (l.foldl min ⊤) := by
  have hloop : (∀ x ∈ l, l.foldl min ⊤ ≤ x) ∧ (l.foldl min ⊤ = ⊤ ∨ l.foldl min ⊤ ∈ l) := by
    clear hl
    induction l using List.reverseRecOn with
    | nil => exact ⟨fun x hx => absurd hx List.not_mem_nil, Or.inl rfl⟩
    | append_singleton l a ih =>
      obtain ⟨hle, hmem⟩ := ih
      rw [List.foldl_append, List.foldl_cons, List.foldl_nil]
      constructor
      · intro x hx
        rcases List.mem_append.mp hx with hx | hx
        · exact (min_le_left _ _).trans (hle x hx)
        · exact (min_le_right _ _).trans (List.mem_singleton.mp hx).ge
      · rcases min_choice (l.foldl min ⊤) a with hold | hnew
        · rw [hold]
          exact hmem.imp_right fun h => List.mem_append_left _ h
        · rw [hnew]
          exact Or.inr (List.mem_append_right _ (List.mem_singleton.mpr rfl))
  obtain ⟨hle, htop | hmem⟩ := hloop
  · obtain ⟨a, ha⟩ := List.exists_mem_of_ne_nil l hl
    have hge : a ≤ l.foldl min ⊤ := by
      rw [htop]
      exact le_top
    have heq := (hle a ha).antisymm hge
    exact ⟨heq ▸ ha, hle⟩
  · exact ⟨hmem, hle⟩

/-- And the loop that keeps the greatest. -/
theorem foldl_max_isGreatest [OrderBot α] (hl : l ≠ []) : IsGreatest {x | x ∈ l} (l.foldl max ⊥) :=
  foldl_min_isLeast (α := αᵒᵈ) hl

/-- Of a sorted list, what is at a place has that rank. -/
theorem atRank_getElem (hl : l.Pairwise (· ≤ ·)) {k : ℕ} (hk : k < l.length) : AtRank l k l[k] := by
  have hsplit := List.take_append_drop k l
  rw [List.drop_eq_getElem_cons hk] at hsplit
  have hlen := List.length_take_of_le hk.le
  generalize l[k] = x at hsplit ⊢
  rw [← hsplit] at hl
  obtain ⟨-, hback, hcross⟩ := List.pairwise_append.mp hl
  obtain ⟨hafter, -⟩ := List.pairwise_cons.mp hback
  constructor
  · have hnone : (x :: l.drop (k + 1)).countP (· < x) = 0 := by
      apply List.countP_eq_zero.mpr
      intro y hy hlt
      rcases List.mem_cons.mp hy with rfl | hy
      · exact lt_irrefl y (of_decide_eq_true hlt)
      · exact not_lt.mpr (hafter y hy) (of_decide_eq_true hlt)
    rw [← hsplit, List.countP_append, hnone, Nat.add_zero]
    exact List.countP_le_length.trans hlen.le
  · have hall : (l.take k).countP (· ≤ x) = k := by
      rw [List.countP_eq_length.mpr, hlen]
      exact fun y hy => decide_eq_true (hcross y hy x List.mem_cons_self)
    have hself : 0 < (x :: l.drop (k + 1)).countP (· ≤ x) :=
      List.countP_pos_iff.mpr ⟨x, List.mem_cons_self, decide_eq_true le_rfl⟩
    rw [← hsplit, List.countP_append, hall]
    exact Nat.lt_add_of_pos_right hself

theorem AtRank.perm {l' : List α} {k : ℕ} {x : α} (h : AtRank l k x) (hperm : l.Perm l') : AtRank l' k x := by
  obtain ⟨hbelow, hupTo⟩ := h
  rw [hperm.countP_eq] at hbelow hupTo
  exact ⟨hbelow, hupTo⟩

theorem AtRank.unique {k : ℕ} {x y : α} (hx : AtRank l k x) (hy : AtRank l k y) : x = y := by
  have hle : ∀ {x y : α}, AtRank l k x → AtRank l k y → y ≤ x := by
    intro x y hx hy
    by_contra hlt
    have hmono : l.countP (· ≤ x) ≤ l.countP (· < y) := by
      apply List.countP_mono_left
      intro z _ hz
      exact decide_eq_true ((of_decide_eq_true hz).trans_lt (not_le.mp hlt))
    exact absurd (hx.upTo.trans_le hmono) (not_lt.mpr hy.below)
  exact (hle hy hx).antisymm (hle hx hy)

end Order

/-! ## What the loop gathers -/

section Gather

variable {slots : List CycleSlot}

/-- The entries of the cores are their first starts. -/
structure CoreFirst (slots : List CycleSlot) (cores : List (Fin (2 ^ 32) × Cycle)) : Prop where
  nodup : (cores.map Prod.fst).Nodup
  keys : ∀ c, c ∈ cores.map Prod.fst ↔ ∃ s ∈ slots, s.core = c
  least : ∀ p ∈ cores, IsLeast {x | ∃ s ∈ slots, s.core = p.1 ∧ s.start = x} p.2

/-- The cores that have an entry afterwards. -/
theorem keys_noteCore (cores : List (Fin (2 ^ 32) × Cycle)) (s : CycleSlot) :
    (noteCore cores s).map Prod.fst =
      if s.core ∈ cores.map Prod.fst then cores.map Prod.fst else cores.map Prod.fst ++ [s.core] := by
  induction cores with
  | nil => rfl
  | cons c cores ih =>
    rw [noteCore, List.map_cons]
    by_cases hc : c.1 = s.core
    · rw [if_pos hc, if_pos (List.mem_cons.mpr (Or.inl hc.symm))]
      rfl
    · have hmem : s.core ∈ c.1 :: cores.map Prod.fst ↔ s.core ∈ cores.map Prod.fst :=
        List.mem_cons.trans (or_iff_right (Ne.symm hc))
      rw [if_neg hc, List.map_cons, ih, if_congr hmem rfl rfl]
      split_ifs
      · rfl
      · rfl

/-- What becomes of the entries: the others stay, and the core's own is the earlier. -/
theorem mem_noteCore {cores : List (Fin (2 ^ 32) × Cycle)} (hnodup : (cores.map Prod.fst).Nodup)
    {s : CycleSlot} {p : Fin (2 ^ 32) × Cycle} (hp : p ∈ noteCore cores s) :
    (p ∈ cores ∧ p.1 ≠ s.core) ∨ (p.1 = s.core ∧
      ((∃ f, (s.core, f) ∈ cores ∧ p.2 = min f s.start) ∨ (s.core ∉ cores.map Prod.fst ∧ p.2 = s.start))) := by
  induction cores with
  | nil =>
    rw [List.mem_singleton.mp hp]
    exact Or.inr ⟨rfl, Or.inr ⟨List.not_mem_nil, rfl⟩⟩
  | cons c cores ih =>
    obtain ⟨hfresh, hrest⟩ := List.nodup_cons.mp hnodup
    rw [noteCore] at hp
    by_cases hc : c.1 = s.core
    · rw [if_pos hc] at hp
      rcases List.mem_cons.mp hp with rfl | hp
      · exact Or.inr ⟨hc, Or.inl ⟨c.2, hc ▸ List.mem_cons_self, rfl⟩⟩
      · refine Or.inl ⟨List.mem_cons_of_mem _ hp, fun heq => hfresh ?_⟩
        rw [hc, ← heq]
        exact List.mem_map_of_mem hp
    · rw [if_neg hc] at hp
      rcases List.mem_cons.mp hp with rfl | hp
      · exact Or.inl ⟨List.mem_cons_self, hc⟩
      · rcases ih hrest hp with ⟨hmem, hne⟩ | ⟨heq, ⟨f, hf, hmin⟩ | ⟨hnone, hstart⟩⟩
        · exact Or.inl ⟨List.mem_cons_of_mem _ hmem, hne⟩
        · exact Or.inr ⟨heq, Or.inl ⟨f, List.mem_cons_of_mem _ hf, hmin⟩⟩
        · refine Or.inr ⟨heq, Or.inr ⟨fun hmem => ?_, hstart⟩⟩
          rcases List.mem_cons.mp hmem with hself | hmem
          · exact hc hself.symm
          · exact hnone hmem

/-- A slot is noted. -/
theorem CoreFirst.note {cores : List (Fin (2 ^ 32) × Cycle)} (h : CoreFirst slots cores) (s : CycleSlot) :
    CoreFirst (slots ++ [s]) (noteCore cores s) := by
  have hmem : ∀ s', s' ∈ slots ++ [s] ↔ s' ∈ slots ∨ s' = s := by
    intro s'
    rw [List.mem_append, List.mem_singleton]
  constructor
  · rw [keys_noteCore]
    split_ifs with hold
    · exact h.nodup
    · rw [List.nodup_append_comm]
      exact List.nodup_cons.mpr ⟨hold, h.nodup⟩
  · intro c
    have hkeys : c ∈ (noteCore cores s).map Prod.fst ↔ c ∈ cores.map Prod.fst ∨ s.core = c := by
      rw [keys_noteCore]
      split_ifs with hold
      · exact (or_iff_left_of_imp fun heq => heq ▸ hold).symm
      · rw [List.mem_append, List.mem_singleton, eq_comm (a := c)]
    rw [hkeys, h.keys]
    constructor
    · rintro (⟨s', hs', hc⟩ | hc)
      · exact ⟨s', (hmem s').mpr (Or.inl hs'), hc⟩
      · exact ⟨s, (hmem s).mpr (Or.inr rfl), hc⟩
    · rintro ⟨s', hs', hc⟩
      rcases (hmem s').mp hs' with hs' | rfl
      · exact Or.inl ⟨s', hs', hc⟩
      · exact Or.inr hc
  · intro p hp
    rcases mem_noteCore h.nodup hp with ⟨hold, hne⟩ | ⟨hcore, ⟨f, hf, hmin⟩ | ⟨hnone, hstart⟩⟩
    · obtain ⟨⟨s', hs', hc, hstart⟩, hleast⟩ := h.least p hold
      refine ⟨⟨s', (hmem s').mpr (Or.inl hs'), hc, hstart⟩, ?_⟩
      rintro x ⟨s'', hs'', hc'', rfl⟩
      rcases (hmem s'').mp hs'' with hs'' | rfl
      · exact hleast ⟨s'', hs'', hc'', rfl⟩
      · exact absurd hc''.symm hne
    · obtain ⟨⟨s', hs', hc, hstart⟩, hleast⟩ := h.least _ hf
      rw [hmin]
      constructor
      · rcases min_choice f s.start with hf' | hs''
        · exact ⟨s', (hmem s').mpr (Or.inl hs'), hc.trans hcore.symm, hstart.trans hf'.symm⟩
        · exact ⟨s, (hmem s).mpr (Or.inr rfl), hcore.symm, hs''.symm⟩
      · rintro x ⟨s'', hs'', hc'', rfl⟩
        rcases (hmem s'').mp hs'' with hs'' | rfl
        · exact (min_le_left _ _).trans (hleast ⟨s'', hs'', hc''.trans hcore, rfl⟩)
        · exact min_le_right _ _
    · rw [hstart]
      refine ⟨⟨s, (hmem s).mpr (Or.inr rfl), hcore.symm, rfl⟩, ?_⟩
      rintro x ⟨s'', hs'', hc'', rfl⟩
      rcases (hmem s'').mp hs'' with hs'' | rfl
      · exact absurd ((h.keys s.core).mpr ⟨s'', hs'', hc''.trans hcore⟩) hnone
      · exact le_rfl

/-- What has been gathered from the slots that were reached. -/
structure Gathers (slots : List CycleSlot) (g : Gathered) : Prop where
  busy : g.busy = slots.map fun s => s.stop - s.start
  edges : g.edges = (slots.map fun s => (s.start, s.stop)).flatMap Sweep.ends
  core_first : CoreFirst slots g.core_first
  first_start : g.first_start = (slots.map (·.start)).foldl min ⊤
  last_end : g.last_end = (slots.map (·.stop)).foldl max 0

/-- The loop gathers them. -/
theorem gathers (slots : List CycleSlot) : Gathers (written slots) (slots.foldl Gathered.add {}) := by
  induction slots using List.reverseRecOn with
  | nil =>
    refine ⟨rfl, rfl, ⟨List.nodup_nil, fun c => ?_, fun p hp => absurd hp List.not_mem_nil⟩, rfl, rfl⟩
    exact iff_of_false List.not_mem_nil fun ⟨s, hs, _⟩ => List.not_mem_nil hs
  | append_singleton slots s ih =>
    rw [List.foldl_append, List.foldl_cons, List.foldl_nil]
    generalize slots.foldl Gathered.add {} = g at ih ⊢
    have hwritten : written (slots ++ [s]) = written slots ++ [s].filter fun s => s.Written :=
      List.filter_append ..
    unfold Gathered.add
    by_cases hzero : s.stop = 0 ∧ s.start = 0
    · have hskip : ([s].filter fun s => s.Written) = [] := by
        apply List.filter_cons_of_neg
        rw [decide_eq_true_eq]
        exact fun h => h hzero
      rw [if_pos hzero, hwritten, hskip, List.append_nil]
      exact ih
    · have htake : ([s].filter fun s => s.Written) = [s] := by
        apply List.filter_cons_of_pos
        rw [decide_eq_true_eq]
        exact hzero
      rw [if_neg hzero, hwritten, htake]
      refine ⟨?_, ?_, ih.core_first.note s, ?_, ?_⟩
      · rw [List.map_append, ← ih.busy]
        rfl
      · rw [List.map_append, List.flatMap_append, ← ih.edges]
        rfl
      · rw [List.map_append, List.foldl_append, ← ih.first_start]
        rfl
      · rw [List.map_append, List.foldl_append, ← ih.last_end]
        rfl

end Gather

/-! ## The summary -/

section Summary

variable {slots : List CycleSlot} {g : Gathered}

/-- The first of a sorted list is its least. -/
theorem headD_isLeast {α : Type*} [LinearOrder α] {l : List α} (hl : l.Pairwise (· ≤ ·)) (hne : l ≠ []) (d : α) :
    IsLeast {x | x ∈ l} (l.headD d) := by
  cases l with
  | nil => exact absurd rfl hne
  | cons a l =>
    refine ⟨List.mem_cons_self, fun x hx => ?_⟩
    rcases List.mem_cons.mp hx with rfl | hx
    · exact le_rfl
    · exact (List.pairwise_cons.mp hl).1 x hx

/-- And the last its greatest. -/
theorem getLastD_isGreatest {α : Type*} [LinearOrder α] {l : List α} (hl : l.Pairwise (· ≤ ·)) (hne : l ≠ [])
    (d : α) : IsGreatest {x | x ∈ l} (l.getLastD d) := by
  obtain ⟨front, a, rfl⟩ := (List.eq_nil_or_concat l).resolve_left hne
  rw [List.concat_eq_append] at hl ⊢
  obtain ⟨-, -, hlast⟩ := List.pairwise_append.mp hl
  have ha : (front ++ [a]).getLastD d = a := by
    rw [List.getLastD_eq_getLast?, List.getLast?_append, List.getLast?_singleton]
    rfl
  rw [ha]
  refine ⟨List.mem_append_right _ (List.mem_singleton.mpr rfl), fun x hx => ?_⟩
  rcases List.mem_append.mp hx with hx | hx
  · exact hlast x hx a (List.mem_singleton.mpr rfl)
  · exact (List.mem_singleton.mp hx).le

/-- The entries are as many as the cores. -/
theorem CoreFirst.length {cores : List (Fin (2 ^ 32) × Cycle)} (h : CoreFirst slots cores) :
    cores.length = (slots.map (·.core)).toFinset.card := by
  have hset : (cores.map Prod.fst).toFinset = (slots.map (·.core)).toFinset := by
    ext c
    rw [List.mem_toFinset, List.mem_toFinset, h.keys, List.mem_map]
  rw [← hset, List.toFinset_card_of_nodup h.nodup, List.length_map]

/-- And their values are the first starts. -/
theorem CoreFirst.mem_iff {cores : List (Fin (2 ^ 32) × Cycle)} (h : CoreFirst slots cores) :
    {f | f ∈ cores.map Prod.snd} = firstStarts slots := by
  ext f
  constructor
  · intro hf
    obtain ⟨p, hp, rfl⟩ := List.mem_map.mp hf
    exact ⟨p.1, h.least p hp⟩
  · rintro ⟨c, hleast⟩
    obtain ⟨s, hs, hc, -⟩ := hleast.1
    obtain ⟨p, hp, rfl⟩ := List.mem_map.mp ((h.keys c).mpr ⟨s, hs, hc⟩)
    rw [hleast.unique (h.least p hp)]
    exact List.mem_map_of_mem hp

/-- What was live, in terms of the sweep. -/
theorem overlap_eq (slots : List CycleSlot) (t : Cycle) :
    Sweep.overlap (slots.map fun s => (s.start, s.stop)) t = live slots t :=
  List.countP_map

/-- The summary describes what was gathered. -/
theorem Gathers.describes (h : Gathers slots g) (hne : slots ≠ []) (hslots : ∀ s ∈ slots, s.start ≤ s.stop) :
    Describes slots g.summary := by
  obtain ⟨hbusy, hedges, hcores, hfirst, hlast⟩ := h
  have hmap : ∀ {β : Type} (f : CycleSlot → β), {x | x ∈ slots.map f} = {x | ∃ s ∈ slots, f s = x} := by
    intro β f
    ext x
    exact List.mem_map
  have hmapne : ∀ {β : Type} (f : CycleSlot → β), slots.map f ≠ [] := by
    intro β f hnil
    exact hne (List.map_eq_nil_iff.mp hnil)
  have hperm : (g.busy.insertionSort (· ≤ ·)).Perm (slots.map fun s => s.stop - s.start) := by
    rw [← hbusy]
    exact List.perm_insertionSort _ _
  have hsorted := List.pairwise_insertionSort (· ≤ ·) g.busy
  have hset : {x | x ∈ g.busy.insertionSort (· ≤ ·)} = {x | ∃ s ∈ slots, s.stop - s.start = x} := by
    rw [← hmap]
    ext x
    exact hperm.mem_iff
  have hlen : (g.busy.insertionSort (· ≤ ·)).length = slots.length := by
    rw [hperm.length_eq, List.length_map]
  have hnonempty : g.busy.insertionSort (· ≤ ·) ≠ [] := by
    intro hnil
    rw [hnil] at hperm
    exact hmapne _ hperm.nil_eq.symm
  have hcoresne : g.core_first.map Prod.snd ≠ [] := by
    obtain ⟨s, hs⟩ := List.exists_mem_of_ne_nil slots hne
    obtain ⟨p, hp, -⟩ := List.mem_map.mp ((hcores.keys s.core).mpr ⟨s, hs, rfl⟩)
    exact List.ne_nil_of_mem (List.mem_map_of_mem hp)
  have hsweep : IsGreatest (Set.range fun t => (live slots t : ℤ))
      (Sweep.sweep (g.edges.insertionSort (· ≤ ·))).2 := by
    simp only [← overlap_eq]
    apply Sweep.sweep_isGreatest
    · intro i hi
      obtain ⟨s, hs, rfl⟩ := List.mem_map.mp hi
      exact hslots s hs
    · exact List.pairwise_insertionSort _ _
    · rw [← hedges]
      exact List.perm_insertionSort _ _
  have hone : ((g.core_first.length : ℤ) = 1) = (g.core_first.length = 1) := by
    rw [Nat.cast_eq_one]
  unfold Gathered.summary
  generalize g.busy.insertionSort (· ≤ ·) = busy at *
  rw [if_neg hnonempty]
  refine ⟨congrArg _ hlen, congrArg _ hcores.length, ?_, ?_, ?_, ⟨g.last_end, ?_, rfl⟩, ?_, ?_, ?_, ?_, hsweep,
    ⟨_, _, ?_, ?_, rfl⟩⟩
  · simp only [hone]
  · simp only [hone]
  · dsimp only
    rw [hfirst, ← hmap]
    exact foldl_min_isLeast (hmapne _)
  · rw [hlast, ← hmap]
    exact foldl_max_isGreatest (hmapne _)
  · simp only [hone]
  · rw [← hset]
    exact headD_isLeast hsorted hnonempty 0
  · have hlt : busy.length / 2 < busy.length := by
      have hpos := List.length_pos_iff.mpr hnonempty
      omega
    dsimp only
    rw [List.getD_eq_getElem?_getD, List.getElem?_eq_getElem hlt, Option.getD_some, ← hlen]
    exact (atRank_getElem hsorted hlt).perm hperm
  · rw [← hset]
    exact getLastD_isGreatest hsorted hnonempty 0
  · rw [← hcores.mem_iff]
    exact foldl_min_isLeast hcoresne
  · rw [← hcores.mem_iff]
    exact foldl_max_isGreatest hcoresne

/-- It does not matter in which order the slots are. -/
theorem Describes.perm {slots' : List CycleSlot} {out : CycleSummary} (h : Describes slots out)
    (hperm : slots.Perm slots') : Describes slots' out := by
  have hlive : live slots = live slots' := by
    funext t
    exact hperm.countP_eq _
  have hcores : (slots.map (·.core)).toFinset = (slots'.map (·.core)).toFinset :=
    List.toFinset_eq_of_perm _ _ (hperm.map _)
  obtain ⟨hwarps, hcoresCount, hvalid, hcrosses, hfirst, hcross, hspan, hmin, hmedian, hmax, hmost, hskew⟩ := h
  unfold firstStarts at hskew
  simp only [hperm.mem_iff] at hfirst hcross hmin hmax hskew
  rw [hperm.length_eq] at hwarps hmedian
  rw [hcores] at hcoresCount
  rw [hlive] at hmost
  exact ⟨hwarps, hcoresCount, hvalid, hcrosses, hfirst, hcross, hspan, hmin, hmedian.perm (hperm.map _), hmax,
    hmost, hskew⟩

/-- And one summary is described. -/
theorem Describes.unique {out out' : CycleSummary} (h : Describes slots out) (h' : Describes slots out') :
    out = out' := by
  have hcores := h.cores.trans h'.cores.symm
  have hfirst := h.firstStart.unique h'.firstStart
  obtain ⟨last, hlast, hcross⟩ := h.crossCoreSpan
  obtain ⟨last', hlast', hcross'⟩ := h'.crossCoreSpan
  have hcombined : out.crossCoreSpan = out'.crossCoreSpan := by
    rw [hcross, hcross', hlast.unique hlast', hfirst]
  obtain ⟨lo, hi, hlo, hhi, hskew⟩ := h.coreSkew
  obtain ⟨lo', hi', hlo', hhi', hskew'⟩ := h'.coreSkew
  have hspread : out.coreSkew = out'.coreSkew := by
    rw [hskew, hskew', hlo.unique hlo', hhi.unique hhi']
  have hvalid : out.spanIsValid = out'.spanIsValid := by
    rw [h.spanIsValid, h'.spanIsValid, hcores]
  have hcrosses : out.spanCrossesCores = out'.spanCrossesCores := by
    rw [h.spanCrossesCores, h'.spanCrossesCores, hcores]
  have hspan : out.span = out'.span := by
    rw [h.span, h'.span, hcores, hcombined]
  have hwarps := h.warps.trans h'.warps.symm
  have hmin := h.busyMin.unique h'.busyMin
  have hmedian := h.busyMedian.unique h'.busyMedian
  have hmax := h.busyMax.unique h'.busyMax
  have hlive := h.maxLive.unique h'.maxLive
  cases out
  cases out'
  simp only [CycleSummary.mk.injEq]
  exact ⟨hwarps, hcores, hvalid, hspan, hmin, hmedian, hmax, hlive, hspread, hcrosses, hcombined, hfirst⟩

/-- Without a slot that was reached there is nothing to summarize. -/
theorem summarize_nil (hnone : written slots = []) : grxCycleSummarize slots = {} := by
  have hbusy := (gathers slots).busy
  rw [hnone, List.map_nil] at hbusy
  unfold grxCycleSummarize Gathered.summary
  rw [hbusy]
  rfl

/-- Otherwise it is described. -/
theorem summarize_describes (hne : written slots ≠ []) (hslots : ∀ s ∈ slots, s.start ≤ s.stop) :
    Describes (written slots) (grxCycleSummarize slots) :=
  (gathers slots).describes hne fun s hs => hslots s (List.mem_of_mem_filter hs)

/-- The slots that were reached, in any order, decide. -/
theorem summarize_congr {slots' : List CycleSlot} (hslots : ∀ s ∈ slots, s.start ≤ s.stop)
    (hperm : (written slots).Perm (written slots')) : grxCycleSummarize slots' = grxCycleSummarize slots := by
  by_cases hne : written slots = []
  · have hne' : written slots' = [] := by
      rw [hne] at hperm
      exact hperm.nil_eq.symm
    rw [summarize_nil hne, summarize_nil hne']
  · have hne' : written slots' ≠ [] := by
      intro hnil
      rw [hnil] at hperm
      exact hne hperm.eq_nil
    have hgathered : ∀ s ∈ written slots', s.start ≤ s.stop := by
      intro s hs
      exact hslots s (List.mem_of_mem_filter (hperm.mem_iff.mpr hs))
    have hdescribes := (gathers slots').describes hne' hgathered
    exact hdescribes.unique ((summarize_describes hne hslots).perm hperm)

/-- A summary of slots that do not end before they start describes those that were reached, and depends neither
on the others nor on the order. -/
theorem summarize_law (slots : List CycleSlot) (hslots : ∀ s ∈ slots, s.start ≤ s.stop) :
    IsGreatest (Set.range fun t => (live (written slots) t : ℤ)) (grxCycleSummarize slots).maxLive ∧
      (written slots = [] → grxCycleSummarize slots = {}) ∧
      (written slots ≠ [] → Describes (written slots) (grxCycleSummarize slots)) ∧
      (∀ slots', written slots' = written slots → grxCycleSummarize slots' = grxCycleSummarize slots) ∧
      ∀ slots', slots.Perm slots' → grxCycleSummarize slots' = grxCycleSummarize slots := by
  refine ⟨?_, summarize_nil, fun hne => summarize_describes hne hslots, fun slots' hsame => ?_,
    fun slots' hperm => ?_⟩
  · by_cases hne : written slots = []
    · rw [summarize_nil hne, hne]
      exact ⟨⟨0, rfl⟩, fun n ⟨t, ht⟩ => ht.ge⟩
    · exact (summarize_describes hne hslots).maxLive
  · apply summarize_congr hslots
    rw [hsame]
  · exact summarize_congr hslots (hperm.filter _)

end Summary

/-- The slots of two warps, one of which ends as the other starts, and one that no warp reached. -/
def touching : List CycleSlot :=
  [⟨10, 20, 0⟩, ⟨20, 30, 1⟩, ⟨0, 0, 0⟩]

theorem summarize_law_touching : (∀ s ∈ touching, s.start ≤ s.stop) ∧
    Describes (written touching) (grxCycleSummarize touching) :=
  ⟨by decide, (summarize_law touching (by decide)).2.2.1 (by decide)⟩

example : (grxCycleSummarize touching).maxLive = 1 := by
  decide

end Grxcp.Cycles
