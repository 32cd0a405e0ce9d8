import Grxcp.Lib.Runs
import Grxcp.Lib.Words
import Grxcp.Runtime.Loader

/-!
# The count of a module

A module is resident while more loads than unloads of it have succeeded, and a function while the module
that it was resolved from has been resident ever since. Both are read off what the calls came to
(`outstanding`, `Holds`). Every run keeps the tables to that (`module_count`), as long as no module has as
many loads as an `int` holds: the count of one more is negative, and an unload then releases it.
-/

namespace Grxcp.Loader

open Runtime

/-! ## What the calls came to -/

/-- The loads of a module that no unload has matched. -/
def outstanding (h : ℕ) (es : List ModuleEvent) : ℤ :=
  es.count (.loaded h) - es.count (.unloaded h)

/-- The function was resolved from the module, and the module has had outstanding loads since. -/
def Holds (es : List ModuleEvent) (f h : ℕ) : Prop :=
  ∃ pre post, es = pre ++ .resolved f h :: post ∧
    ∀ post', post' <+: post → 0 < outstanding h (pre ++ .resolved f h :: post')

section Events

variable {es : List ModuleEvent} {e : ModuleEvent} {f h : ℕ}

theorem outstanding_append (h : ℕ) (es : List ModuleEvent) (e : ModuleEvent) :
    outstanding h (es ++ [e]) = outstanding h es + (if e = .loaded h then 1 else 0) -
      (if e = .unloaded h then 1 else 0) := by
  unfold outstanding
  rw [List.count_append, List.count_append, List.count_singleton, List.count_singleton]
  simp only [beq_iff_eq]
  split <;> split <;> push_cast <;> ring

theorem Holds.outstanding_pos (hholds : Holds es f h) : 0 < outstanding h es := by
  obtain ⟨pre, post, rfl, hpos⟩ := hholds
  exact hpos post (List.prefix_refl post)

/-- After one more call, what held still holds if its module has outstanding loads. -/
theorem holds_append : Holds (es ++ [e]) f h ↔
    (Holds es f h ∨ e = .resolved f h) ∧ 0 < outstanding h (es ++ [e]) := by
  constructor
  · intro hholds
    refine ⟨?_, hholds.outstanding_pos⟩
    obtain ⟨pre, post, heq, hpos⟩ := hholds
    rcases List.eq_nil_or_concat post with rfl | ⟨post, last, rfl⟩
    · obtain ⟨-, hlast⟩ := List.append_inj' heq rfl
      exact .inr (List.singleton_inj.mp hlast)
    · left
      rw [List.concat_eq_append] at heq hpos
      rw [← List.cons_append, ← List.append_assoc] at heq
      obtain ⟨hes, -⟩ := List.append_inj' heq rfl
      exact ⟨pre, post, hes, fun post' hpre => hpos post' (hpre.trans (List.prefix_append _ _))⟩
  · rintro ⟨⟨pre, post, rfl, hpos⟩ | rfl, hnow⟩
    · refine ⟨pre, post ++ [e], by simp, fun post' hpre => ?_⟩
      rcases List.prefix_concat_iff.mp hpre with rfl | hpre
      · simpa using hnow
      · exact hpos post' hpre
    · refine ⟨es, [], rfl, fun post' hpre => ?_⟩
      rw [List.prefix_nil.mp hpre]
      exact hnow

/-- A call that resolves nothing and takes the last load of nothing leaves what holds. -/
theorem holds_append_of_pos (hne : ∀ f h, e ≠ .resolved f h)
    (hpos : 0 < outstanding h es → 0 < outstanding h (es ++ [e])) :
    Holds (es ++ [e]) f h ↔ Holds es f h := by
  rw [holds_append]
  constructor
  · rintro ⟨hholds | heq, -⟩
    · exact hholds
    · exact absurd heq (hne f h)
  · exact fun hholds => ⟨.inl hholds, hpos hholds.outstanding_pos⟩

end Events

/-! ## The tables -/

/-- The tables after calls that came to `es`: a module is in them while it has outstanding loads, with
their number, and a function while it holds. -/
structure Counted (s : Tables) (es : List ModuleEvent) : Prop where
  nonneg : ∀ h, 0 ≤ outstanding h es
  resident : ∀ h, (s.modules.find? h).isSome ↔ 0 < outstanding h es
  refs : ∀ h m, s.modules.find? h = some m → m.refs.toInt = outstanding h es
  functions : ∀ f h, (∃ fs, s.functions.find? f = some fs ∧ fs.owner = h) ↔ Holds es f h

/-- What a call does to them. It asks the driver for no image that is resident on the device, it has the
driver release a module and the kernels of its functions exactly as it takes the last outstanding load,
and if it is a load that fails it leaves the tables. -/
structure EffectExact (s : Tables) (es : List ModuleEvent) (c : ModuleCall) (x : ModuleEffect) :
    Prop where
  asked : ∀ device image, x.asked = some (device, image) → ∀ h m,
    s.modules.find? h = some m → ¬ (m.device = device ∧ m.bytes = image)
  released : ∀ d, x.released = some d ↔ ∃ h m, c = .unload h ∧ s.modules.find? h = some m ∧
    m.module = d ∧ outstanding h (es ++ [x.event]) = 0
  kernels : ∀ k, k ∈ x.kernels ↔ ∃ h f fs, c = .unload h ∧ (s.modules.find? h).isSome ∧
    outstanding h (es ++ [x.event]) = 0 ∧ s.functions.find? f = some fs ∧ fs.owner = h ∧ fs.kernel = k
  failed : ∀ e, x.event = .failed e → x.state = s

namespace ModuleCall

/-- The image of a call that is a load, with what it is answered. -/
def image : ModuleCall → Option (List UInt8 × LoadReplies)
  | .loadData true (some image) r => if image = [] then none else some (image, r)
  | .load true (.ok image) r => if image = [] then none else some (image, r)
  | _ => none

/-- A new state is at an address that is not in use. -/
def Fresh (s : Tables) : ModuleCall → Prop
  | .loadData _ _ r => s.modules.find? r.handle = none
  | .load _ _ r => s.modules.find? r.handle = none
  | .unload _ => True
  | .getFunction _ _ r => s.functions.find? r.handle = none

/-- A load that finds its image resident finds fewer loads of it than an `int` holds. -/
def CountFits (s : Tables) (c : ModuleCall) : Prop :=
  ∀ image r device capabilities, c.image = some (image, r) → r.acquire = .ok (device, capabilities) →
    capabilities &&& GRX_CAP_KERNEL_LAUNCH ≠ 0 →
      ∀ h m, s.resident device image = some (h, m) → m.refs.toInt < 2 ^ 31 - 1

/-! ## What a call does -/

/-- The effects of a call. -/
inductive Happens (s : Tables) (c : ModuleCall) : ModuleEffect → Prop
  | failed (e : GrxError) (asked : Option (ℕ × List UInt8))
      (hasked : ∀ device image, asked = some (device, image) → s.resident device image = none) :
      Happens s c { state := s, event := .failed e, asked }
  | shared {image : List UInt8} {r : LoadReplies} {device h : ℕ} {capabilities : UInt32}
      {m : ModuleState} (himage : c.image = some (image, r))
      (hacquire : r.acquire = .ok (device, capabilities))
      (hcap : capabilities &&& GRX_CAP_KERNEL_LAUNCH ≠ 0)
      (hresident : s.resident device image = some (h, m)) :
      Happens s c
        { state := { s with modules := s.modules.insert h { m with refs := m.refs + 1 } }
          event := .loaded h }
  | loaded {image : List UInt8} {r : LoadReplies} {device module : ℕ}
      (himage : c.image = some (image, r)) (hresident : s.resident device image = none) :
      Happens s c
        { state := { s with modules := s.modules.insert r.handle { module, device, bytes := image } }
          event := .loaded r.handle
          asked := some (device, image) }
  | kept {h : ℕ} {m : ModuleState} (hc : c = .unload h) (hm : s.modules.find? h = some m)
      (hrefs : 0 < m.refs - 1) :
      Happens s c
        { state := { s with modules := s.modules.insert h { m with refs := m.refs - 1 } }
          event := .unloaded h }
  | last {h : ℕ} {m : ModuleState} (hc : c = .unload h) (hm : s.modules.find? h = some m)
      (hrefs : ¬ 0 < m.refs - 1) :
      Happens s c
        { state :=
            { s with
              modules := s.modules.erase h
              functions := s.functions.filter fun _ f => f.owner ≠ h }
          event := .unloaded h
          released := some m.module
          kernels := (s.functions.entries.filter fun kv => kv.2.owner = h).map fun kv => kv.2.kernel }
  | resolved {args : Bool} {h : ℕ} {r : FunctionReplies} {m : ModuleState} {fs : FunctionState}
      (hc : c = .getFunction args h r) (hm : s.modules.find? h = some m) (hfs : fs.owner = h) :
      Happens s c
        { state := { s with functions := s.functions.insert r.handle fs }
          event := .resolved r.handle h }

variable {s : Tables} {c : ModuleCall}

theorem happens_load {image : List UInt8} {r : LoadReplies} (hc : image ≠ [] → c.image = some (image, r)) :
    Happens s c (ofLoad (s.loadModuleTracked true (some image) r)) := by
  unfold Tables.loadModuleTracked
  dsimp only
  split
  · exact .failed _ none nofun
  next himage =>
  push Not at himage
  have hloads := hc himage.2
  split
  · exact .failed _ none nofun
  next device capabilities hacquire =>
  split
  · exact .failed _ none nofun
  next hcap =>
  split
  next h m hresident => exact .shared hloads hacquire hcap hresident
  next hresident =>
  split
  · exact .failed _ none nofun
  split
  · refine .failed _ _ fun device' image' hasked => ?_
    cases hasked
    exact hresident
  · exact .loaded hloads hresident

/-- An unload that takes the last load, by the count. -/
theorem effect_last {h : ℕ} {m : ModuleState} (hm : s.modules.find? h = some m) (hrefs : ¬ 0 < m.refs - 1) :
    (ModuleCall.unload h).effect s =
      { state :=
          { s with
            modules := s.modules.erase h
            functions := s.functions.filter fun _ f => f.owner ≠ h }
        event := .unloaded h
        released := some m.module
        kernels := (s.functions.entries.filter fun kv => kv.2.owner = h).map fun kv => kv.2.kernel } := by
  unfold effect Tables.grxModuleUnload
  dsimp only
  rw [hm]
  dsimp only
  rw [if_neg hrefs]

/-- What a call does is one of its effects. -/
theorem happens (s : Tables) (c : ModuleCall) : Happens s c (c.effect s) := by
  cases c with
  | loadData out image r =>
    show Happens s _ (ofLoad (s.loadModuleTracked out image r))
    cases image with
    | none => exact .failed _ none nofun
    | some image =>
      cases out with
      | false => exact .failed _ none nofun
      | true => exact happens_load fun hne => if_neg hne
  | load args file r =>
    show Happens s _ (ofLoad (s.grxModuleLoad args file r))
    cases args with
    | false => exact .failed _ none nofun
    | true =>
      cases file with
      | error e => exact .failed _ none nofun
      | ok image =>
        unfold Tables.grxModuleLoad
        dsimp only
        rw [if_neg (by decide)]
        split
        · exact .failed _ none nofun
        · exact happens_load fun hne => if_neg hne
  | unload h =>
    cases hm : s.modules.find? h with
    | none =>
      unfold effect Tables.grxModuleUnload
      dsimp only
      rw [hm]
      exact .failed _ none nofun
    | some m =>
      by_cases hrefs : 0 < m.refs - 1
      · unfold effect Tables.grxModuleUnload
        dsimp only
        rw [hm]
        dsimp only
        rw [if_pos hrefs]
        exact .kept rfl hm hrefs
      · rw [effect_last hm hrefs]
        exact .last rfl hm hrefs
  | getFunction args h r =>
    unfold effect Tables.grxModuleGetFunction
    dsimp only
    cases args with
    | false => exact .failed _ none nofun
    | true =>
      rw [if_neg (by decide)]
      cases hm : s.modules.find? h with
      | none => exact .failed _ none nofun
      | some m =>
        dsimp only
        cases r.kernel with
        | error e => exact .failed _ none nofun
        | ok kernel => exact .resolved rfl hm rfl

end ModuleCall

/-! ## Every run -/

section Step

variable {s : Tables} {es : List ModuleEvent} {c : ModuleCall}

theorem Counted.zero (h : Counted s es) {k : ℕ} (hk : s.modules.find? k = none) :
    outstanding k es = 0 := by
  have hnone : ¬ 0 < outstanding k es := by
    rw [← h.resident, hk]
    nofun
  have hnonneg := h.nonneg k
  omega

theorem Counted.pos (h : Counted s es) {k : ℕ} {m : ModuleState} (hk : s.modules.find? k = some m) :
    0 < outstanding k es := by
  rw [← h.resident, hk]
  rfl

/-- A function can be launched while it holds. -/
theorem Counted.lookup (h : Counted s es) (f : ℕ) :
    (s.lookupFunction f).isSome ↔ ∃ k, Holds es f k := by
  unfold Tables.lookupFunction
  rw [Option.isSome_map, Option.isSome_iff_exists]
  constructor
  · rintro ⟨fs, hfs⟩
    exact ⟨fs.owner, (h.functions f fs.owner).mp ⟨fs, hfs, rfl⟩⟩
  · rintro ⟨k, hholds⟩
    obtain ⟨fs, hfs, -⟩ := (h.functions f k).mpr hholds
    exact ⟨fs, hfs⟩

/-- The module that a load finds. -/
theorem resident_some {device : ℕ} {image : List UInt8} {k : ℕ} {m : ModuleState}
    (h : s.resident device image = some (k, m)) :
    s.modules.find? k = some m ∧ m.device = device ∧ m.bytes = image := by
  have hmem := List.mem_of_find?_eq_some h
  have hp := List.find?_some h
  rw [decide_eq_true_iff] at hp
  exact ⟨OrdMap.find?_eq_some_iff.mpr hmem, hp⟩

/-- A load that finds none has none to find. -/
theorem resident_none {device : ℕ} {image : List UInt8} (h : s.resident device image = none) {k : ℕ}
    {m : ModuleState} (hm : s.modules.find? k = some m) : ¬ (m.device = device ∧ m.bytes = image) := by
  have hall := List.find?_eq_none.mp h (k, m) (OrdMap.find?_eq_some_iff.mp hm)
  rwa [decide_eq_true_iff] at hall

/-- Another event for a module that stays changes nothing of the others. -/
theorem Counted.change (h : Counted s es) {e : ModuleEvent} {k : ℕ} {m : ModuleState}
    (hother : ∀ k', k' ≠ k → outstanding k' (es ++ [e]) = outstanding k' es)
    (hpos : 0 < outstanding k (es ++ [e])) (hrefs : m.refs.toInt = outstanding k (es ++ [e]))
    (hne : ∀ f k, e ≠ .resolved f k) :
    Counted { s with modules := s.modules.insert k m } (es ++ [e]) := by
  refine ⟨fun k' => ?_, fun k' => ?_, fun k' m' hm' => ?_, fun f k' => ?_⟩
  · by_cases hk : k' = k
    · rw [hk]
      exact hpos.le
    · rw [hother k' hk]
      exact h.nonneg k'
  · rw [OrdMap.find?_insert]
    by_cases hk : k' = k
    · rw [if_pos hk, hk]
      exact ⟨fun _ => hpos, fun _ => rfl⟩
    · rw [if_neg hk, hother k' hk]
      exact h.resident k'
  · rw [OrdMap.find?_insert] at hm'
    by_cases hk : k' = k
    · rw [if_pos hk] at hm'
      cases hm'
      rw [hk]
      exact hrefs
    · rw [if_neg hk] at hm'
      rw [hother k' hk]
      exact h.refs k' m' hm'
  · rw [h.functions, holds_append_of_pos hne]
    intro hbefore
    by_cases hk : k' = k
    · rw [hk]
      exact hpos
    · rw [hother k' hk]
      exact hbefore

/-- A call that fails leaves the tables, and what they count. -/
theorem Counted.fail (h : Counted s es) (e : GrxError) : Counted s (es ++ [.failed e]) := by
  have hsame : ∀ k, outstanding k (es ++ [.failed e]) = outstanding k es := by
    intro k
    rw [outstanding_append, if_neg nofun, if_neg nofun]
    ring
  refine ⟨fun k => ?_, fun k => ?_, fun k m hm => ?_, fun f k => ?_⟩
  · rw [hsame]
    exact h.nonneg k
  · rw [hsame]
    exact h.resident k
  · rw [hsame]
    exact h.refs k m hm
  · have hne : ∀ f k, ModuleEvent.failed e ≠ .resolved f k := fun _ _ => nofun
    rw [h.functions, holds_append_of_pos hne fun hpos => by rwa [hsame]]

/-- The last unload takes the module and its functions. -/
theorem Counted.release (h : Counted s es) {k : ℕ} (hone : outstanding k es = 1) :
    Counted
      { s with
        modules := s.modules.erase k
        functions := s.functions.filter fun _ f => f.owner ≠ k } (es ++ [.unloaded k]) := by
  have hself : outstanding k (es ++ [.unloaded k]) = 0 := by
    rw [outstanding_append, if_neg nofun, if_pos rfl]
    omega
  have hother : ∀ k', k' ≠ k → outstanding k' (es ++ [.unloaded k]) = outstanding k' es := by
    intro k' hk
    rw [outstanding_append, if_neg nofun, if_neg fun heq => hk (ModuleEvent.unloaded.inj heq).symm]
    ring
  have hfind : ∀ k', (s.modules.erase k).find? k' = if k' = k then none else s.modules.find? k' := by
    intro k'
    by_cases hk : k' = k
    · rw [if_pos hk, OrdMap.find?_eq_none_iff]
      intro v hv
      exact (OrdMap.has_erase.mp hv).2 hk
    · rw [if_neg hk]
      cases hv : s.modules.find? k' with
      | none =>
        rw [OrdMap.find?_eq_none_iff] at hv ⊢
        exact fun v hv' => hv v (OrdMap.has_erase.mp hv').1
      | some v =>
        rw [OrdMap.find?_eq_some_iff] at hv ⊢
        exact OrdMap.has_erase.mpr ⟨hv, hk⟩
  refine ⟨fun k' => ?_, fun k' => ?_, fun k' m hm => ?_, fun f k' => ?_⟩
  · by_cases hk : k' = k
    · rw [hk, hself]
    · rw [hother k' hk]
      exact h.nonneg k'
  · rw [hfind]
    by_cases hk : k' = k
    · rw [if_pos hk, hk, hself]
      exact ⟨nofun, fun hlt => absurd hlt (lt_irrefl _)⟩
    · rw [if_neg hk, hother k' hk]
      exact h.resident k'
  · rw [hfind] at hm
    by_cases hk : k' = k
    · rw [if_pos hk] at hm
      cases hm
    · rw [if_neg hk] at hm
      rw [hother k' hk]
      exact h.refs k' m hm
  · rw [holds_append, ← h.functions]
    constructor
    · rintro ⟨fs, hfs, rfl⟩
      obtain ⟨hhas, howner⟩ := OrdMap.has_filter.mp (OrdMap.find?_eq_some_iff.mp hfs)
      rw [decide_eq_true_iff] at howner
      have hhas' := OrdMap.find?_eq_some_iff.mpr hhas
      refine ⟨.inl ⟨fs, hhas', rfl⟩, ?_⟩
      rw [hother _ howner]
      exact ((h.functions f fs.owner).mp ⟨fs, hhas', rfl⟩).outstanding_pos
    · rintro ⟨⟨fs, hfs, rfl⟩ | heq, hpos⟩
      · refine ⟨fs, OrdMap.find?_eq_some_iff.mpr (OrdMap.has_filter.mpr
          ⟨OrdMap.find?_eq_some_iff.mp hfs, ?_⟩), rfl⟩
        rw [decide_eq_true_iff]
        intro howner
        rw [howner, hself] at hpos
        exact lt_irrefl _ hpos
      · cases heq

/-- A function of a module that is resident. -/
theorem Counted.resolve (h : Counted s es) {f : ℕ} {fs : FunctionState} {m : ModuleState}
    (hm : s.modules.find? fs.owner = some m) (hfresh : s.functions.find? f = none) :
    Counted { s with functions := s.functions.insert f fs } (es ++ [.resolved f fs.owner]) := by
  have hsame : ∀ k, outstanding k (es ++ [.resolved f fs.owner]) = outstanding k es := by
    intro k
    rw [outstanding_append, if_neg nofun, if_neg nofun]
    ring
  refine ⟨fun k => ?_, fun k => ?_, fun k m hm => ?_, fun f' k => ?_⟩
  · rw [hsame]
    exact h.nonneg k
  · rw [hsame]
    exact h.resident k
  · rw [hsame]
    exact h.refs k m hm
  · rw [holds_append, ← h.functions, hsame, OrdMap.find?_insert]
    by_cases hf : f' = f
    · subst hf
      rw [if_pos rfl, hfresh]
      constructor
      · rintro ⟨fs', heq, rfl⟩
        cases heq
        exact ⟨.inr rfl, h.pos hm⟩
      · rintro ⟨⟨fs', heq, -⟩ | heq, -⟩
        · cases heq
        · cases heq
          exact ⟨fs, rfl, rfl⟩
    · rw [if_neg hf]
      constructor
      · rintro ⟨fs', hfs', rfl⟩
        exact ⟨.inl ⟨fs', hfs', rfl⟩, ((h.functions f' fs'.owner).mp ⟨fs', hfs', rfl⟩).outstanding_pos⟩
      · rintro ⟨hholds | heq, -⟩
        · exact hholds
        · exact absurd (ModuleEvent.resolved.inj heq).1.symm hf

/-- The last unload, by the code's count. -/
theorem Counted.last_iff (h : Counted s es) {k : ℕ} {m : ModuleState}
    (hm : s.modules.find? k = some m) : (m.refs - 1).toInt = outstanding k es - 1 ∧
      (0 < m.refs - 1 ↔ 0 < outstanding k es - 1) := by
  have hrefs := h.refs k m hm
  have hpos := h.pos hm
  have hlt := m.refs.toInt_lt
  have hone : (1 : Int32).toInt = 1 := rfl
  have hsub : (m.refs - 1).toInt = outstanding k es - 1 := by
    rw [Words.int32_sub_of_range (by omega) (by omega)]
    omega
  refine ⟨hsub, ?_⟩
  rw [Int32.lt_iff_toInt_lt, hsub]
  rfl

theorem ModuleCall.fresh_of_image {image : List UInt8} {r : LoadReplies}
    (himage : c.image = some (image, r)) (hfresh : c.Fresh s) : s.modules.find? r.handle = none := by
  unfold ModuleCall.image at himage
  split at himage
  · split at himage
    · cases himage
    · cases himage
      exact hfresh
  · split at himage
    · cases himage
    · cases himage
      exact hfresh
  · cases himage

/-- One call keeps the count. -/
theorem Counted.step (h : Counted s es) (hfresh : c.Fresh s) (hfits : c.CountFits s) {x : ModuleEffect}
    (hx : c.Happens s x) : Counted x.state (es ++ [x.event]) := by
  cases hx with
  | failed e asked hasked => exact h.fail e
  | @shared image r device k capabilities m himage hacquire hcap hresident =>
    obtain ⟨hm, -, -⟩ := resident_some hresident
    have hrefs := h.refs k m hm
    have hpos := h.pos hm
    have hlt := hfits image r device capabilities himage hacquire hcap k m hresident
    have hself : outstanding k (es ++ [.loaded k]) = outstanding k es + 1 := by
      rw [outstanding_append, if_pos rfl, if_neg nofun]
      ring
    show Counted _ (es ++ [.loaded k])
    refine h.change (fun k' hk => ?_) (by omega) ?_ (fun _ _ => nofun)
    · rw [outstanding_append, if_neg fun heq => hk (ModuleEvent.loaded.inj heq).symm, if_neg nofun]
      ring
    · have hone : (1 : Int32).toInt = 1 := rfl
      rw [hself, ← hrefs]
      exact Words.int32_add_of_range (by omega) (by omega)
  | @loaded image r device module himage hresident =>
    have hnone := ModuleCall.fresh_of_image himage hfresh
    have hzero := h.zero hnone
    have hself : outstanding r.handle (es ++ [.loaded r.handle]) = 1 := by
      rw [outstanding_append, if_pos rfl, if_neg nofun]
      omega
    show Counted _ (es ++ [.loaded r.handle])
    refine h.change (fun k' hk => ?_) (by omega) ?_ (fun _ _ => nofun)
    · rw [outstanding_append, if_neg fun heq => hk (ModuleEvent.loaded.inj heq).symm, if_neg nofun]
      ring
    · rw [hself]
      rfl
  | @kept k m hc hm hrefs =>
    obtain ⟨hsub, hiff⟩ := h.last_iff hm
    have hpos := hiff.mp hrefs
    have hself : outstanding k (es ++ [.unloaded k]) = outstanding k es - 1 := by
      rw [outstanding_append, if_neg nofun, if_pos rfl]
      ring
    show Counted _ (es ++ [.unloaded k])
    refine h.change (fun k' hk => ?_) (by omega) ?_ (fun _ _ => nofun)
    · rw [outstanding_append, if_neg nofun, if_neg fun heq => hk (ModuleEvent.unloaded.inj heq).symm]
      ring
    · rw [hself]
      exact hsub
  | @last k m hc hm hrefs =>
    obtain ⟨-, hiff⟩ := h.last_iff hm
    have hpos := h.pos hm
    rw [hiff] at hrefs
    exact h.release (by omega)
  | @resolved args k r m fs hc hm hfs =>
    subst hfs hc
    exact h.resolve hm hfresh

/-- A call that takes no last load releases nothing. -/
theorem effectExact_of_idle {x : ModuleEffect}
    (hasked : ∀ device image, x.asked = some (device, image) → s.resident device image = none)
    (hreleased : x.released = none) (hkernels : x.kernels = [])
    (hidle : ∀ h, c = .unload h → (s.modules.find? h).isSome → outstanding h (es ++ [x.event]) ≠ 0)
    (hfailed : ∀ e, x.event = .failed e → x.state = s) : EffectExact s es c x := by
  refine ⟨fun device image heq k m hm => resident_none (hasked device image heq) hm, fun d => ?_,
    fun kernel => ?_, hfailed⟩
  · rw [hreleased]
    constructor
    · exact nofun
    · rintro ⟨h, m, hc, hm, -, hzero⟩
      exact absurd hzero (hidle h hc (by rw [hm]; rfl))
  · rw [hkernels]
    constructor
    · exact nofun
    · rintro ⟨h, f, fs, hc, hm, hzero, -⟩
      exact absurd hzero (hidle h hc hm)

/-- What a call does to tables that are counted. -/
theorem Counted.effectExact (h : Counted s es) {x : ModuleEffect} (hx : c.Happens s x) :
    EffectExact s es c x := by
  cases hx with
  | failed e asked hasked =>
    refine effectExact_of_idle hasked rfl rfl (fun k _ hm => ?_) fun _ _ => rfl
    have hpos := (h.resident k).mp hm
    show outstanding k (es ++ [.failed e]) ≠ 0
    rw [outstanding_append, if_neg nofun, if_neg nofun]
    omega
  | shared himage hacquire hcap hresident =>
    refine effectExact_of_idle nofun rfl rfl (fun k hc => ?_) nofun
    rw [hc] at himage
    cases himage
  | loaded himage hresident =>
    refine effectExact_of_idle (fun device image hasked => ?_) rfl rfl (fun k hc => ?_) nofun
    · cases hasked
      exact hresident
    · rw [hc] at himage
      cases himage
  | @kept k m hc hm hrefs =>
    obtain ⟨-, hiff⟩ := h.last_iff hm
    have hpos := hiff.mp hrefs
    refine effectExact_of_idle nofun rfl rfl (fun k' hc' _ => ?_) nofun
    rw [hc] at hc'
    cases hc'
    show outstanding k (es ++ [.unloaded k]) ≠ 0
    rw [outstanding_append, if_neg nofun, if_pos rfl]
    omega
  | @last k m hc hm hrefs =>
    obtain ⟨-, hiff⟩ := h.last_iff hm
    have hpos := h.pos hm
    rw [hiff] at hrefs
    have hzero : outstanding k (es ++ [.unloaded k]) = 0 := by
      rw [outstanding_append, if_neg nofun, if_pos rfl]
      omega
    refine ⟨nofun, fun d => ?_, fun kernel => ?_, nofun⟩
    · constructor
      · rintro ⟨⟩
        exact ⟨k, m, hc, hm, rfl, hzero⟩
      · rintro ⟨k', m', hc', hm', rfl, -⟩
        rw [hc] at hc'
        cases hc'
        rw [hm] at hm'
        cases hm'
        rfl
    · constructor
      · intro hkernel
        obtain ⟨⟨f, fs⟩, hmem, rfl⟩ := List.mem_map.mp hkernel
        obtain ⟨hhas, howner⟩ := List.mem_filter.mp hmem
        rw [decide_eq_true_iff] at howner
        exact ⟨k, f, fs, hc, by rw [hm]; rfl, hzero, OrdMap.find?_eq_some_iff.mpr hhas, howner, rfl⟩
      · rintro ⟨k', f, fs, hc', -, -, hfs, howner, rfl⟩
        rw [hc] at hc'
        cases hc'
        refine List.mem_map.mpr ⟨(f, fs), List.mem_filter.mpr ⟨OrdMap.find?_eq_some_iff.mp hfs, ?_⟩, rfl⟩
        rw [decide_eq_true_iff]
        exact howner
  | resolved hc hm hfs =>
    refine effectExact_of_idle nofun rfl rfl (fun k hc' => ?_) nofun
    rw [hc] at hc'
    cases hc'

end Step

theorem counted_empty : Counted {} [] := by
  refine ⟨fun _ => le_rfl, fun h => ?_, fun h m hm => ?_, fun f h => ?_⟩
  · constructor
    · exact nofun
    · exact fun hlt => absurd hlt (lt_irrefl _)
  · cases hm
  · constructor
    · rintro ⟨fs, hfs, -⟩
      cases hfs
    · rintro ⟨pre, post, heq, -⟩
      exact absurd heq.symm (by simp)

/-- Every state of a run is counted, and every call does to it what it should. -/
def RunExact (calls : List ModuleCall) : Prop :=
  (∀ before after, calls = before ++ after →
    Counted (Runs.after ModuleCall.step ({}, []) before).1
      (Runs.after ModuleCall.step ({}, []) before).2) ∧
  ∀ before c after, calls = before ++ c :: after →
    EffectExact (Runs.after ModuleCall.step ({}, []) before).1
      (Runs.after ModuleCall.step ({}, []) before).2 c
      (c.effect (Runs.after ModuleCall.step ({}, []) before).1)

/-- In every run whose loads find no module with as many loads as an `int` holds, a module and its
functions stay until every load is matched, and are released exactly then. -/
theorem module_count (calls : List ModuleCall)
    (hfresh : Runs.Along ModuleCall.step (fun x c => c.Fresh x.1) ({}, []) calls)
    (hfits : Runs.Along ModuleCall.step (fun x c => c.CountFits x.1) ({}, []) calls) :
    RunExact calls := by
  have hcounted : ∀ before after, calls = before ++ after →
      Counted (Runs.after ModuleCall.step ({}, []) before).1
        (Runs.after ModuleCall.step ({}, []) before).2 := by
    intro before after heq
    have hboth := hfresh.and hfits
    rw [heq, Runs.along_append] at hboth
    have hstep : ∀ (x : Tables × List ModuleEvent) (c : ModuleCall), Counted x.1 x.2 →
        (c.Fresh x.1 ∧ c.CountFits x.1) → Counted (c.step x).1 (c.step x).2 :=
      fun x c hx hok => hx.step hok.1 hok.2 (c.happens x.1)
    exact Runs.invariant (I := fun x : Tables × List ModuleEvent => Counted x.1 x.2) hstep hboth.1
      counted_empty
  refine ⟨hcounted, fun before c after heq => ?_⟩
  exact (hcounted before (c :: after) heq).effectExact (c.happens _)

/-- An image, and a call that loads it. -/
def loadOne : ModuleCall :=
  .loadData true (some [1]) {}

/-- A load, a function of it, and the unload. -/
theorem module_count_one : RunExact [loadOne, .getFunction true 1 {}, .unload 1] := by
  apply module_count
  · exact ⟨rfl, rfl, trivial, trivial⟩
  · refine ⟨?_, ?_, ?_, trivial⟩
    · intro image r device capabilities himage hacquire hcap h m hresident
      cases hresident
    · intro image r device capabilities himage
      cases himage
    · intro image r device capabilities himage
      cases himage

/-- The same image again. -/
def loadAgain : ModuleCall :=
  .loadData true (some [1]) { handle := 2 }

/-- The tables, and what came before, after one load of the image and `n` more. -/
def loadedState (n : ℕ) : Tables × List ModuleEvent :=
  ({ modules := OrdMap.empty.insert 1
      { module := 0, device := 0, refs := Int32.ofNat (n + 1), bytes := [1] } },
    List.replicate (n + 1) (.loaded 1))

theorem step_loadAgain (n : ℕ) : loadAgain.step (loadedState n) = loadedState (n + 1) := by
  have hrefs : Int32.ofNat (n + 1) + 1 = Int32.ofNat (n + 1 + 1) := (Int32.ofNat_add _ _).symm
  have hevents : List.replicate (n + 1) (ModuleEvent.loaded 1) ++ [.loaded 1] =
      List.replicate (n + 1 + 1) (.loaded 1) := List.replicate_succ'.symm
  unfold loadedState
  rw [← hrefs, ← hevents]
  rfl

theorem after_loads (n : ℕ) :
    Runs.after ModuleCall.step ({}, []) (loadOne :: List.replicate n loadAgain) = loadedState n := by
  induction n with
  | zero => rfl
  | succ n ih =>
    rw [List.replicate_succ', ← List.cons_append, Runs.after_append, ih]
    exact step_loadAgain n

theorem fresh_loads (n k : ℕ) :
    Runs.Along ModuleCall.step (fun x c => c.Fresh x.1) (loadedState k) (List.replicate n loadAgain) := by
  induction n generalizing k with
  | zero => trivial
  | succ n ih =>
    rw [List.replicate_succ]
    refine ⟨rfl, ?_⟩
    rw [step_loadAgain]
    exact ih (k + 1)

/-- With `2 ^ 31` loads outstanding, one unload releases the module. -/
theorem module_count_not : ¬ ∀ calls : List ModuleCall,
    Runs.Along ModuleCall.step (fun x c => c.Fresh x.1) ({}, []) calls → RunExact calls := by
  intro hall
  have hexact := hall (loadOne :: List.replicate (2 ^ 31) loadAgain ++ [.unload 1]) ?_
  · have heffect := hexact.2 (loadOne :: List.replicate (2 ^ 31) loadAgain) (.unload 1) [] rfl
    -- the count is `-(2 ^ 31) + 1`
    have hrefs : ¬ 0 < Int32.ofNat (2 ^ 31 + 1) - 1 := by decide
    rw [after_loads, ModuleCall.effect_last (m := ⟨0, 0, Int32.ofNat (2 ^ 31 + 1), [1]⟩) rfl hrefs]
      at heffect
    obtain ⟨h, m, hc, -, -, hzero⟩ := (heffect.released 0).mp rfl
    cases hc
    have hloads : outstanding 1 (loadedState (2 ^ 31)).2 = 2 ^ 31 + 1 := by
      unfold outstanding loadedState
      rw [List.count_replicate_self, List.count_replicate]
      rfl
    dsimp only at hzero
    rw [outstanding_append, if_neg nofun, if_pos rfl, hloads] at hzero
    omega
  · rw [Runs.along_append, after_loads]
    refine ⟨⟨rfl, ?_⟩, trivial, trivial⟩
    exact fresh_loads (2 ^ 31) 0

end Grxcp.Loader
