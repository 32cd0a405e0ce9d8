import Mathlib.Data.Finset.Card
import Mathlib.Logic.Relation

/-!
# Searching a graph with a worklist

A depth-first search that gathers something at each node and gives up at a node it cannot visit.
-/

namespace Grxcp.Worklist

/-- A graph whose nodes outside a list cannot be visited. -/
structure Graph (α : Type*) where
  known : List α
  next : α → Option (List α)
  inside : ∀ a, (next a).isSome → a ∈ known

variable {α γ : Type*}

/-- Nodes are put on a worklist, whose head is the last. -/
def push (work more : List α) : List α :=
  more.reverse ++ work

variable (G : Graph α)

/-- An edge of the graph. -/
def Graph.Edge (a b : α) : Prop :=
  ∃ more, G.next a = some more ∧ b ∈ more

/-- Paths of the graph. -/
def Graph.Reach : α → α → Prop :=
  Relation.ReflTransGen G.Edge

/-- The nodes that were visited lead to nodes that were visited or are on the worklist. -/
def Graph.Bounded (work visited : List α) : Prop :=
  ∀ a ∈ visited, ∃ more, G.next a = some more ∧ ∀ b ∈ more, b ∈ visited ∨ b ∈ work

variable {G} in
/-- What was visited from one node, with nothing left to visit, is all that paths lead to. -/
theorem reach_mem {a b : α} {order : List α} (ha : a ∈ order) (hclosed : G.Bounded [] order) (h : G.Reach a b) :
    b ∈ order := by
  induction h with
  | refl => exact ha
  | tail _ hedge ih =>
    obtain ⟨more, hnext, hb⟩ := hedge
    obtain ⟨next, hmore, hedges⟩ := hclosed _ ih
    rw [hnext] at hmore
    rw [← Option.some.inj hmore] at hedges
    exact (hedges _ hb).resolve_right List.not_mem_nil

/-! ## The search -/

variable [DecidableEq α] (gather : γ → α → γ)

/-- The search: the last node put on the worklist is taken first. -/
def search (work visited : List α) (acc : γ) : Option γ :=
  match work with
  | [] => some acc
  | a :: work =>
    if a ∈ visited then search work visited acc
    else
      match hnext : G.next a with
      | none => none
      | some more => search (push work more) (a :: visited) (gather acc a)
termination_by ((G.known.toFinset \ visited.toFinset).card, work.length)
decreasing_by
  · exact Prod.Lex.right _ (Nat.lt_succ_self _)
  · -- a node that is visited is known, and it was not visited before
    apply Prod.Lex.left
    have hmem : a ∈ G.known := G.inside a (by rw [hnext]; rfl)
    apply Finset.card_lt_card
    refine Finset.ssubset_iff_of_subset ?_ |>.mpr ⟨a, ?_, ?_⟩
    · apply Finset.sdiff_subset_sdiff (Finset.Subset.refl _)
      rw [List.toFinset_cons]
      exact Finset.subset_insert _ _
    · rw [Finset.mem_sdiff, List.mem_toFinset, List.mem_toFinset]
      exact ⟨hmem, ‹a ∉ visited›⟩
    · rw [Finset.mem_sdiff, List.toFinset_cons]
      exact fun h => h.2 (Finset.mem_insert_self _ _)

/-- What a search finds: its worklist leads to a node that cannot be visited; or it visits, each once, nodes that
its worklist leads to, and nothing is left to visit. -/
def Graph.Finds (work visited : List α) (acc : γ) : Option γ → Prop
  | none => ∃ a ∈ work, ∃ b, G.Reach a b ∧ G.next b = none
  | some r => ∃ order : List α, order.Nodup ∧ (∀ b ∈ order, b ∉ visited ∧ ∃ a ∈ work, G.Reach a b) ∧
      (∀ a ∈ work, a ∈ order ∨ a ∈ visited) ∧ G.Bounded [] (order ++ visited) ∧ r = order.foldl gather acc

variable {G gather}

theorem search_finds {work visited : List α} {acc : γ} (h : G.Bounded work visited) :
    G.Finds gather work visited acc (search G gather work visited acc) := by
  induction work, visited, acc using search.induct G gather with
  | case1 visited acc =>
    rw [search]
    exact ⟨[], List.nodup_nil, fun b hb => absurd hb List.not_mem_nil, fun a ha => absurd ha List.not_mem_nil, h, rfl⟩
  | case2 visited acc a work hmem ih =>
    rw [search, if_pos hmem]
    have hbounded : G.Bounded work visited := by
      intro b hb
      obtain ⟨more, hnext, hmore⟩ := h b hb
      refine ⟨more, hnext, fun c hc => ?_⟩
      rcases hmore c hc with hc | hc
      · exact .inl hc
      · rcases List.mem_cons.mp hc with rfl | hc
        · exact .inl hmem
        · exact .inr hc
    have hfinds := ih hbounded
    revert hfinds
    cases search G gather work visited acc with
    | none =>
      rintro ⟨b, hb, hfail⟩
      exact ⟨b, List.mem_cons_of_mem _ hb, hfail⟩
    | some r =>
      rintro ⟨order, hnodup, hfrom, hall, hclosed, hr⟩
      refine ⟨order, hnodup, fun b hb => ?_, fun b hb => ?_, hclosed, hr⟩
      · obtain ⟨hnew, c, hc, hreach⟩ := hfrom b hb
        exact ⟨hnew, c, List.mem_cons_of_mem _ hc, hreach⟩
      · rcases List.mem_cons.mp hb with rfl | hb
        · exact .inr hmem
        · exact hall b hb
  | case3 visited acc a work hmem hnext =>
    rw [search, if_neg hmem]
    split
    · exact ⟨a, List.mem_cons_self, a, .refl, hnext⟩
    · next more hmore => exact absurd (hnext.symm.trans hmore) (Option.some_ne_none more).symm
  | case4 visited acc a work hmem more hnext ih =>
    rw [search, if_neg hmem]
    split
    · next hnone => exact absurd (hnext.symm.trans hnone) (Option.some_ne_none more)
    · next found hfound =>
      obtain rfl : more = found := Option.some.inj (hnext.symm.trans hfound)
      have hbounded : G.Bounded (push work more) (a :: visited) := by
        intro b hb
        rcases List.mem_cons.mp hb with rfl | hb
        · exact ⟨more, hnext, fun c hc => .inr (List.mem_append_left _ (List.mem_reverse.mpr hc))⟩
        · obtain ⟨next, hb, hedges⟩ := h b hb
          refine ⟨next, hb, fun c hc => ?_⟩
          rcases hedges c hc with hc | hc
          · exact .inl (List.mem_cons_of_mem _ hc)
          · rcases List.mem_cons.mp hc with rfl | hc
            · exact .inl List.mem_cons_self
            · exact .inr (List.mem_append_right _ hc)
      -- what the new worklist leads to, the old one leads to
      have hleads : ∀ c ∈ push work more, ∃ d ∈ a :: work, G.Reach d c := by
        intro c hc
        rcases List.mem_append.mp hc with hc | hc
        · exact ⟨a, List.mem_cons_self, .single ⟨more, hnext, List.mem_reverse.mp hc⟩⟩
        · exact ⟨c, List.mem_cons_of_mem _ hc, .refl⟩
      have hfinds := ih hbounded
      revert hfinds
      cases search G gather (push work more) (a :: visited) (gather acc a) with
      | none =>
        rintro ⟨c, hc, b, hreach, hfail⟩
        obtain ⟨d, hd, hdc⟩ := hleads c hc
        exact ⟨d, hd, b, hdc.trans hreach, hfail⟩
      | some r =>
        rintro ⟨order, hnodup, hfrom, hall, hclosed, hr⟩
        have hfresh : a ∉ order := fun ha => (hfrom a ha).1 List.mem_cons_self
        refine ⟨a :: order, List.nodup_cons.mpr ⟨hfresh, hnodup⟩, fun b hb => ?_, fun b hb => ?_, ?_, hr⟩
        · rcases List.mem_cons.mp hb with rfl | hb
          · exact ⟨hmem, b, List.mem_cons_self, .refl⟩
          · obtain ⟨hnew, c, hc, hreach⟩ := hfrom b hb
            obtain ⟨d, hd, hdc⟩ := hleads c hc
            exact ⟨fun hvisited => hnew (List.mem_cons_of_mem _ hvisited), d, hd, hdc.trans hreach⟩
        · rcases List.mem_cons.mp hb with rfl | hb
          · exact .inl List.mem_cons_self
          · rcases hall b (List.mem_append_right _ hb) with hb | hb
            · exact .inl (List.mem_cons_of_mem _ hb)
            · rcases List.mem_cons.mp hb with rfl | hb
              · exact .inl List.mem_cons_self
              · exact .inr hb
        · intro b hb
          have hmove : ∀ c, c ∈ a :: order ++ visited ↔ c ∈ order ++ a :: visited := by
            intro c
            rw [List.mem_append, List.mem_append, List.mem_cons, List.mem_cons]
            tauto
          obtain ⟨next, hb, hedges⟩ := hclosed b ((hmove b).mp hb)
          refine ⟨next, hb, fun c hc => ?_⟩
          rcases hedges c hc with hc | hc
          · exact .inl ((hmove c).mpr hc)
          · exact absurd hc List.not_mem_nil

/-- A search from one node gives up exactly if a path leads to a node that cannot be visited. -/
theorem search_none_iff {a : α} {acc : γ} :
    search G gather [a] [] acc = none ↔ ∃ b, G.Reach a b ∧ G.next b = none := by
  have hfinds : G.Finds gather [a] [] acc (search G gather [a] [] acc) :=
    search_finds fun b hb => absurd hb List.not_mem_nil
  constructor
  · intro hnone
    rw [hnone] at hfinds
    obtain ⟨c, hc, hfail⟩ := hfinds
    rw [List.mem_singleton.mp hc] at hfail
    exact hfail
  · rintro ⟨b, hreach, hfail⟩
    cases hsearch : search G gather [a] [] acc with
    | none => rfl
    | some r =>
      rw [hsearch] at hfinds
      obtain ⟨order, -, -, hall, hclosed, -⟩ := hfinds
      rw [List.append_nil] at hclosed
      have ha : a ∈ order := (hall a List.mem_cons_self).resolve_right List.not_mem_nil
      obtain ⟨more, hnext, -⟩ := hclosed b (reach_mem ha hclosed hreach)
      exact absurd (hnext.symm.trans hfail) (Option.some_ne_none more)

/-- A search from one node that ends has visited, each once, the nodes that paths lead to. -/
theorem search_some {a : α} {acc r : γ} (h : search G gather [a] [] acc = some r) :
    ∃ order : List α, order.Nodup ∧ (∀ b, b ∈ order ↔ G.Reach a b) ∧ r = order.foldl gather acc := by
  have hfinds : G.Finds gather [a] [] acc (search G gather [a] [] acc) :=
    search_finds fun b hb => absurd hb List.not_mem_nil
  rw [h] at hfinds
  obtain ⟨order, hnodup, hfrom, hall, hclosed, hr⟩ := hfinds
  refine ⟨order, hnodup, fun b => ⟨fun hb => ?_, fun hb => ?_⟩, hr⟩
  · obtain ⟨-, c, hc, hreach⟩ := hfrom b hb
    rw [List.mem_singleton.mp hc] at hreach
    exact hreach
  · rw [List.append_nil] at hclosed
    have ha : a ∈ order := (hall a List.mem_cons_self).resolve_right List.not_mem_nil
    exact reach_mem ha hclosed hb

end Grxcp.Worklist
