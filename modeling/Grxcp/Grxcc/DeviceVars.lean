import Grxcp.Grxcc.Declarations

/-!
# Device variables

`find_device_vars`: the variables that a file declares for the device. It records each variable once and under
its name where the declaration has one declarator, the brackets behind its marks do not make it look like a
function, and the name is the last identifier before the first `[`, `=` or `;` (`recorded_iff`).
-/

namespace Grxcp.Grxcc

/-! ## The depth of braces -/

/-- The state of `non_namespace_depth`; each frame is a namespace, and has its depth. -/
structure Frames where
  stack : List ℤ := []
  depth : ℤ := 0
  nsOpen : ℤ := 0
  pending : Bool := false

def Frames.openBrace (s : Frames) : Frames :=
  if s.pending then ⟨(s.depth + 1) :: s.stack, s.depth + 1, s.nsOpen + 1, false⟩
  else { s with depth := s.depth + 1 }

def Frames.closeBrace (s : Frames) : Frames :=
  if s.stack.head? = some s.depth then { s with stack := s.stack.tail, nsOpen := s.nsOpen - 1, depth := s.depth - 1 }
  else { s with depth := s.depth - 1 }

/-- The name of a namespace is passed. -/
def behindName : List Char → List Char
  | [] => []
  | ':' :: ':' :: text => behindName text
  | c :: text => if identChar c then behindName text else c :: text

/-- Where `non_namespace_depth` looks for the brace of a namespace. -/
def behindNamespace (text : List Char) : List Char :=
  (behindName (text.dropWhile isSpace)).dropWhile isSpace

theorem behindName_spec (text : List Char) : ∃ name, text = name ++ behindName text ∧ ∀ c ∈ name, Plain c := by
  induction text using behindName.induct with
  | case1 => exact ⟨[], rfl, fun c hc => absurd hc List.not_mem_nil⟩
  | case2 text ih =>
    obtain ⟨name, hsplit, hname⟩ := ih
    refine ⟨':' :: ':' :: name, ?_, ?_⟩
    · rw [behindName]
      exact congrArg (':' :: ':' :: ·) hsplit
    · intro c hc
      rcases List.mem_cons.mp hc with rfl | hc
      · exact .inr (.inl rfl)
      · rcases List.mem_cons.mp hc with rfl | hc
        · exact .inr (.inl rfl)
        · exact hname c hc
  | case3 c text hcolons hident ih =>
    obtain ⟨name, hsplit, hname⟩ := ih
    refine ⟨c :: name, ?_, ?_⟩
    · rw [behindName, if_pos hident]
      · exact congrArg (c :: ·) hsplit
      · exact hcolons
    · intro d hd
      rcases List.mem_cons.mp hd with rfl | hd
      · exact .inl hident
      · exact hname d hd
  | case4 c text hcolons hident =>
    refine ⟨[], ?_, fun c hc => absurd hc List.not_mem_nil⟩
    rw [behindName, if_neg hident]
    · rfl
    · exact hcolons

theorem behindNamespace_spec (text : List Char) :
    ∃ name, text = name ++ behindNamespace text ∧ ∀ c ∈ name, Plain c := by
  have hblank : ∀ text : List Char, ∀ c ∈ text.takeWhile isSpace, Plain c :=
    fun text c hc => .inr (.inr (List.mem_takeWhile_imp hc))
  obtain ⟨name, hsplit, hname⟩ := behindName_spec (text.dropWhile isSpace)
  refine ⟨text.takeWhile isSpace ++ (name ++ (behindName (text.dropWhile isSpace)).takeWhile isSpace), ?_, ?_⟩
  · unfold behindNamespace
    rw [List.append_assoc, List.append_assoc, List.takeWhile_append_dropWhile, ← hsplit,
      List.takeWhile_append_dropWhile]
  · intro c hc
    rcases List.mem_append.mp hc with hc | hc
    · exact hblank _ c hc
    · rcases List.mem_append.mp hc with hc | hc
      · exact hname c hc
      · exact hblank _ c hc

theorem length_behindNamespace_le (text : List Char) : (behindNamespace text).length ≤ text.length := by
  obtain ⟨name, hsplit, -⟩ := behindNamespace_spec text
  have hlength := congrArg List.length hsplit
  rw [List.length_append] at hlength
  omega

def namespaceWord : List Char :=
  "namespace".toList

/-- The loop of `non_namespace_depth`, up to the position `pos`. -/
def depthFrom (pos : ℕ) (before text : List Char) (s : Frames) : ℤ :=
  match text with
  | [] => s.depth - s.nsOpen
  | c :: rest =>
    if pos ≤ before.length then s.depth - s.nsOpen
    else
      let k := skipNoncode before (c :: rest)
      if k ≠ 0 then depthFrom pos (((c :: rest).take k).reverse ++ before) ((c :: rest).drop k) s
      else if c = '{' then depthFrom pos (c :: before) rest s.openBrace
      else if c = '}' then depthFrom pos (c :: before) rest s.closeBrace
      else if wordAt namespaceWord before (c :: rest) then
        let r := behindNamespace ((c :: rest).drop 9)
        if r.head? = some '{' then
          depthFrom pos (((c :: rest).take ((c :: rest).length - r.length)).reverse ++ before) r
            { s with pending := true }
        else depthFrom pos (((c :: rest).take 9).reverse ++ before) ((c :: rest).drop 9) s
      else depthFrom pos (c :: before) rest s
termination_by text.length
decreasing_by
  · simp only [List.length_drop, List.length_cons]
    omega
  · exact Nat.lt_succ_self _
  · exact Nat.lt_succ_self _
  · have hle := length_behindNamespace_le ((c :: rest).drop 9)
    rw [List.length_drop] at hle
    simp only [List.length_cons] at hle ⊢
    omega
  · simp only [List.length_drop, List.length_cons]
    omega
  · exact Nat.lt_succ_self _

/-- `non_namespace_depth`. -/
def nonNamespaceDepth (src : List Char) (pos : ℕ) : ℤ :=
  depthFrom pos [] src {}

/-- The frames are those of braces that are open. -/
def Frames.Within (s : Frames) : Prop :=
  s.nsOpen = s.stack.length ∧ s.stack.Pairwise (· > ·) ∧ ∀ f ∈ s.stack, 1 ≤ f ∧ f ≤ s.depth

theorem Frames.Within.openBrace {s : Frames} (h : s.Within) (hdepth : 0 ≤ s.depth) : s.openBrace.Within := by
  obtain ⟨hopen, hsorted, hframes⟩ := h
  unfold Frames.openBrace
  by_cases hpending : s.pending = true
  · rw [if_pos hpending]
    refine ⟨?_, List.pairwise_cons.mpr ⟨fun f hf => ?_, hsorted⟩, fun f hf => ?_⟩
    · show s.nsOpen + 1 = _
      rw [hopen, List.length_cons]
      push_cast
      rfl
    · exact Int.lt_add_one_iff.mpr (hframes f hf).2
    · show 1 ≤ f ∧ f ≤ s.depth + 1
      rcases List.mem_cons.mp hf with rfl | hf
      · omega
      · have hf := hframes f hf
        omega
  · rw [if_neg hpending]
    refine ⟨hopen, hsorted, fun f hf => ?_⟩
    show 1 ≤ f ∧ f ≤ s.depth + 1
    have hf := hframes f hf
    omega

theorem Frames.openBrace_depth (s : Frames) : s.openBrace.depth = s.depth + 1 := by
  unfold Frames.openBrace
  split
  · rfl
  · rfl

theorem Frames.closeBrace_depth (s : Frames) : s.closeBrace.depth = s.depth - 1 := by
  unfold Frames.closeBrace
  split
  · rfl
  · rfl

theorem Frames.Within.closeBrace {s : Frames} (h : s.Within) : s.closeBrace.Within := by
  obtain ⟨hopen, hsorted, hframes⟩ := h
  unfold Frames.closeBrace
  by_cases htop : s.stack.head? = some s.depth
  · rw [if_pos htop]
    obtain ⟨stack, hstack⟩ := List.head?_eq_some_iff.mp htop
    rw [hstack] at hopen hsorted hframes
    refine ⟨?_, ?_, fun f hf => ?_⟩
    · show s.nsOpen - 1 = _
      rw [hopen, hstack, List.length_cons, List.tail_cons]
      push_cast
      omega
    · show s.stack.tail.Pairwise _
      rw [hstack]
      exact (List.pairwise_cons.mp hsorted).2
    · have hf : f ∈ stack := by
        have hmem : f ∈ s.stack.tail := hf
        rwa [hstack] at hmem
      show 1 ≤ f ∧ f ≤ s.depth - 1
      have hlt : s.depth > f := (List.pairwise_cons.mp hsorted).1 f hf
      have hpos := (hframes f (List.mem_cons_of_mem _ hf)).1
      omega
  · rw [if_neg htop]
    refine ⟨hopen, hsorted, fun f hf => ?_⟩
    show 1 ≤ f ∧ f ≤ s.depth - 1
    have hf' := hframes f hf
    -- the top frame is below this brace, and so are the others
    have hlt : f < s.depth := by
      rcases hstack : s.stack with _ | ⟨top, stack⟩
      · rw [hstack] at hf
        exact absurd hf List.not_mem_nil
      · rw [hstack] at hf hsorted hframes htop
        have hne : top ≠ s.depth := fun h => htop (congrArg some h)
        have hle := (hframes top List.mem_cons_self).2
        rcases List.mem_cons.mp hf with rfl | hf
        · omega
        · have hbelow : top > f := (List.pairwise_cons.mp hsorted).1 f hf
          omega
    omega

theorem Frames.Within.zero {s : Frames} (h : s.Within) (hdepth : s.depth = 0) : s.depth - s.nsOpen = 0 := by
  obtain ⟨hopen, -, hframes⟩ := h
  have hnil : s.stack = [] := by
    apply List.eq_nil_iff_forall_not_mem.mpr
    intro f hf
    have hf := hframes f hf
    omega
  rw [hopen, hdepth, hnil]
  rfl

theorem render_cons (x : Atom) (a : List Atom) : render (x :: a) = x.text ++ render a :=
  rfl

theorem depthFrom_past {pos : ℕ} {before : List Char} (h : pos ≤ before.length) (text : List Char) (s : Frames) :
    depthFrom pos before text s = s.depth - s.nsOpen := by
  rcases text with _ | ⟨c, rest⟩
  · rw [depthFrom]
  · rw [depthFrom, if_pos h]

theorem namespaceWord_at {before text : List Char} (h : wordAt namespaceWord before text = true) :
    (∀ c ∈ namespaceWord, Plain c) ∧ namespaceWord ++ text.drop 9 = text := by
  constructor
  · intro c hc
    left
    revert c
    decide
  · obtain ⟨more, hmore⟩ := wordAt_spec h
    rw [← hmore]
    rfl

/-- Behind balanced braces no brace is open that is not that of a namespace. -/
theorem depthFrom_zero (pos : ℕ) (before text : List Char) (s : Frames) {a b : List Atom} {d : ℕ}
    (htext : text = render (a ++ b)) (hsync : Sync before (a ++ b)) (hnested : Nested '{' '}' d a)
    (hs : s.Within) (hdepth : s.depth = d) (hpos : pos = before.length + (render a).length) :
    depthFrom pos before text s = 0 := by
  have hzero : ∀ {s : Frames} {d : ℕ}, Nested '{' '}' d [] → s.Within → s.depth = d → s.depth - s.nsOpen = 0 := by
    intro s d hnested hs hdepth
    have hd : d = 0 := hnested
    apply hs.zero
    rw [hdepth, hd]
    rfl
  -- a step over a name: the position is behind it or in it, and there is no brace in it
  have hover : ∀ {a b : List Atom} {before t r : List Char}, Sync before (a ++ b) → render (a ++ b) = t ++ r →
      scan before (t ++ r) = t.map .code ++ scan (t.reverse ++ before) r →
        (∃ a', a = t.map .code ++ a' ∧ r = render (a' ++ b) ∧ Sync (t.reverse ++ before) (a' ++ b)) ∨
          ∃ t', a = t'.map .code ∧ t' <+: t := by
    intro a b before t r hsync hrender hscan
    have hsplit : a ++ b = t.map .code ++ scan (t.reverse ++ before) r := by
      rw [← hscan, ← hrender]
      exact hsync.symm
    rcases List.append_eq_append_iff.mp hsplit with ⟨x, ht, -⟩ | ⟨a', ha, hb⟩
    · right
      obtain ⟨t', t'', rfl, ha, -⟩ := List.map_eq_append_iff.mp ht
      exact ⟨t', ha.symm, List.prefix_append _ _⟩
    · left
      refine ⟨a', ha, ?_, ?_⟩
      · rw [ha, List.append_assoc, render_append, render_code] at hrender
        exact (List.append_cancel_left hrender).symm
      · have hrest := hsync
        rw [ha, List.append_assoc] at hrest
        have hnext := hrest.append
        rwa [render_code] at hnext
  have hjump : ∀ {a b : List Atom} {before t r : List Char} {s : Frames} {d : ℕ}, Sync before (a ++ b) →
      render (a ++ b) = t ++ r → scan before (t ++ r) = t.map .code ++ scan (t.reverse ++ before) r →
        (∀ c ∈ t, c ≠ '{' ∧ c ≠ '}') → Nested '{' '}' d a → s.Within → s.depth = d →
          pos = before.length + (render a).length →
            (∀ {a' : List Atom}, r = render (a' ++ b) → Sync (t.reverse ++ before) (a' ++ b) → Nested '{' '}' d a' →
              pos = (t.reverse ++ before).length + (render a').length →
                depthFrom pos (t.reverse ++ before) r s = 0) →
              depthFrom pos (t.reverse ++ before) r s = 0 := by
    intro a b before t r s d hsync hrender hscan ht hnested hs hdepth hpos ih
    rcases hover hsync hrender hscan with ⟨a', rfl, hr, hnext⟩ | ⟨t', rfl, ht'⟩
    · rw [nested_append_iff] at hnested
      · apply ih hr hnext hnested
        rw [render_append, render_code] at hpos
        simp only [List.length_append, List.length_reverse] at hpos ⊢
        omega
      · intro c hc
        obtain ⟨x, hx, hsame⟩ := List.mem_map.mp hc
        rw [← Atom.code.inj hsame]
        exact ht x hx
    · rw [depthFrom_past]
      · rw [← List.append_nil (t'.map _), nested_append_iff] at hnested
        · exact hzero hnested hs hdepth
        · intro c hc
          obtain ⟨x, hx, hsame⟩ := List.mem_map.mp hc
          rw [← Atom.code.inj hsame]
          exact ht x (ht'.subset hx)
      · rw [hpos, render_code, List.length_append, List.length_reverse, Nat.add_comm]
        exact Nat.add_le_add_right ht'.length_le _
  have hcode : ∀ {before rest : List Char} {c : Char} {a b : List Atom}, ¬pos ≤ before.length →
      ¬skipNoncode before (c :: rest) ≠ 0 → c :: rest = render (a ++ b) → Sync before (a ++ b) →
        pos = before.length + (render a).length → ∃ a', a = .code c :: a' ∧ rest = render (a' ++ b) ∧
          Sync (c :: before) (a' ++ b) ∧ pos = (c :: before).length + (render a').length := by
    intro before rest c a b h hskip htext hsync hpos
    rcases a with _ | ⟨x | t, a⟩
    · exact absurd hpos.le h
    · obtain ⟨-, hrest⟩ := hsync.code
      obtain ⟨rfl, rfl⟩ := List.cons.inj htext
      refine ⟨a, rfl, rfl, hrest, ?_⟩
      rw [render_cons] at hpos
      simp only [Atom.text, List.length_append, List.length_cons, List.length_nil] at hpos ⊢
      omega
    · obtain ⟨-, c', more, hwhole, hnot, -, -⟩ := hsync.skip
      obtain ⟨rfl, rfl⟩ := List.cons.inj (htext.trans hwhole)
      exact absurd hnot hskip
  induction before, text, s using depthFrom.induct pos generalizing a b d with
  | case1 before s =>
    have hnil : a = [] := by
      rcases a with _ | ⟨x, a⟩
      · rfl
      · exact absurd htext (hsync.render_ne_nil).symm
    subst hnil
    rw [depthFrom]
    exact hzero hnested hs hdepth
  | case2 before s c rest h =>
    have hnil : a = [] := by
      rcases a with _ | ⟨x, a⟩
      · rfl
      · have hlength := List.length_pos_of_ne_nil hsync.text_ne_nil
        rw [render_cons, List.length_append] at hpos
        omega
    subst hnil
    rw [depthFrom, if_pos h]
    exact hzero hnested hs hdepth
  | case3 before s c rest h k hskip =>
    rename_i ih
    rw [depthFrom, if_neg h]
    dsimp only
    rw [if_pos hskip]
    rcases a with _ | ⟨x | t, a⟩
    · exact absurd hpos.le h
    · obtain ⟨rfl, rfl⟩ := List.cons.inj htext
      exact absurd hsync.code.1 hskip
    · obtain ⟨hrest, c', more, hwhole, -, htake, hdrop⟩ := hsync.skip
      obtain ⟨rfl, rfl⟩ := List.cons.inj (htext.trans hwhole)
      apply ih hdrop _ hnested hs hdepth
      · rw [htake, render_cons] at *
        simp only [Atom.text, List.length_append, List.length_reverse] at hpos ⊢
        omega
      · rw [htake]
        exact hrest
  | case4 before s rest h k hskip =>
    rename_i ih
    obtain ⟨a, rfl, hrest, hsync, hpos⟩ := hcode h hskip htext hsync hpos
    have hnested : Nested '{' '}' (d + 1) a := hnested
    rw [depthFrom, if_neg h]
    dsimp only
    rw [if_neg hskip, if_pos rfl]
    apply ih hrest hsync hnested
    · exact hs.openBrace (hdepth ▸ Int.natCast_nonneg d)
    · rw [Frames.openBrace_depth, hdepth]
      rfl
    · exact hpos
  | case5 before s rest h k hskip hopen =>
    rename_i ih
    obtain ⟨a, rfl, hrest, hsync, hpos⟩ := hcode h hskip htext hsync hpos
    obtain ⟨hd, hnested⟩ : 0 < d ∧ Nested '{' '}' (d - 1) a := hnested
    rw [depthFrom, if_neg h]
    dsimp only
    rw [if_neg hskip, if_neg hopen, if_pos rfl]
    apply ih hrest hsync hnested hs.closeBrace
    · rw [Frames.closeBrace_depth, hdepth, Nat.cast_sub hd]
      rfl
    · exact hpos
  | case6 before s c rest h k hskip hopen hclose hword r =>
    rename_i hr ih
    rw [depthFrom, if_neg h]
    dsimp only
    rw [if_neg hskip, if_neg hopen, if_neg hclose, if_pos hword, if_pos hr]
    obtain ⟨hplain, hdrop⟩ := namespaceWord_at hword
    obtain ⟨name, hname, hnameplain⟩ := behindNamespace_spec ((c :: rest).drop 9)
    have hwhole : c :: rest = namespaceWord ++ name ++ r := by
      rw [List.append_assoc, ← hname, hdrop]
    have htake : (c :: rest).take ((c :: rest).length - r.length) = namespaceWord ++ name := by
      rw [hwhole, List.length_append, Nat.add_sub_cancel, List.take_left]
    have hall : ∀ x ∈ namespaceWord ++ name, Plain x := by
      intro x hx
      exact (List.mem_append.mp hx).elim (hplain x) (hnameplain x)
    have hquote : r.head? ≠ some '"' := by
      rw [hr]
      decide
    rw [htake] at ih ⊢
    exact hjump hsync (htext.symm.trans hwhole) (scan_plain hall hquote before)
      (fun x hx => ⟨plain_ne (hall x hx) (by decide), plain_ne (hall x hx) (by decide)⟩) hnested hs hdepth hpos
      fun hr hnext hnested hpos => ih hr hnext hnested hs hdepth hpos
  | case7 before s c rest h k hskip hopen hclose hword r =>
    rename_i hr ih
    rw [depthFrom, if_neg h]
    dsimp only
    rw [if_neg hskip, if_neg hopen, if_neg hclose, if_pos hword, if_neg hr]
    obtain ⟨hplain, hdrop⟩ := namespaceWord_at hword
    have htake : (c :: rest).take 9 = namespaceWord := by
      conv_lhs => rw [← hdrop]
      rfl
    rw [htake] at ih ⊢
    exact hjump hsync (htext.symm.trans hdrop.symm) (scan_ordinary_append (by decide) before _)
      (fun x hx => ⟨plain_ne (hplain x hx) (by decide), plain_ne (hplain x hx) (by decide)⟩) hnested hs hdepth hpos
      fun hr hnext hnested hpos => ih hr hnext hnested hs hdepth hpos
  | case8 before s c rest h k hskip hopen hclose hword =>
    rename_i ih
    obtain ⟨a, rfl, hrest, hsync, hpos⟩ := hcode h hskip htext hsync hpos
    have hstep : Nested '{' '}' d (.code c :: a) = if c = '{' then Nested '{' '}' (d + 1) a
      else if c = '}' then 0 < d ∧ Nested '{' '}' (d - 1) a else Nested '{' '}' d a := rfl
    rw [hstep, if_neg hopen, if_neg hclose] at hnested
    rw [depthFrom, if_neg h]
    dsimp only
    rw [if_neg hskip, if_neg hopen, if_neg hclose, if_neg hword]
    exact ih hrest hsync hnested hs hdepth hpos

/-! ## Finding device variables -/

/-- `DeviceVar`. -/
structure DeviceVar where
  name : List Char
  isConstant : Bool
  line : ℕ

/-- What a declaration has before the first `[` or `=`. -/
def beforeInit (decl : List Char) : List Char :=
  decl.takeWhile fun c => c ≠ '[' && c ≠ '='

/-- The loop of `find_device_vars`, from a position on; each variable with the position of its mark. -/
def varsFrom (src before text : List Char) : List (ℕ × DeviceVar) :=
  match text with
  | [] => []
  | c :: rest =>
    let k := skipNoncode before (c :: rest)
    if k ≠ 0 then varsFrom src (((c :: rest).take k).reverse ++ before) ((c :: rest).drop k)
    else
      match markAt before (c :: rest) with
      | none => varsFrom src (c :: before) rest
      | some m =>
        let past := m.word.reverse ++ before
        let behind := (c :: rest).drop m.word.length
        if nonNamespaceDepth src before.length ≠ 0 then varsFrom src past behind
        else
          match firstStop (scan past behind) with
          | none => varsFrom src past behind
          | some stop =>
            if stop = '(' then varsFrom src past behind
            else
              match findCodeChar ';' (scan past behind) with
              | none => varsFrom src past behind
              | some semi =>
                let name := lastIdent (beforeInit (behind.take semi))
                let found := if name = [] then [] else [(before.length, ⟨name, m == .constant, lineOf before⟩)]
                found ++ varsFrom src ((behind.take (semi + 1)).reverse ++ past) (behind.drop (semi + 1))
termination_by text.length
decreasing_by
  all_goals have hword := List.length_pos_of_ne_nil (word_ne_nil Mark.device)
  all_goals simp only [List.length_drop, List.length_cons]
  · omega
  · omega
  all_goals
    have hword := List.length_pos_of_ne_nil (word_ne_nil m)
    omega

/-- `find_device_vars`. -/
def findDeviceVars (src : List Char) : List DeviceVar :=
  (varsFrom src [] src).map Prod.snd

/-! ## One declaration -/

theorem varsFrom_code {src before rest : List Char} {c : Char} (hcode : skipNoncode before (c :: rest) = 0)
    (hmark : markAt before (c :: rest) = none) : varsFrom src before (c :: rest) = varsFrom src (c :: before) rest := by
  rw [varsFrom]
  dsimp only
  rw [if_neg (not_not.mpr hcode), hmark]

/-- Nothing is found where there is no mark. -/
theorem varsFrom_silent (src : List Char) {before : List Char} {a b : List Atom} (hsync : Sync before (a ++ b))
    (hsilent : Silent before a (render b)) :
    varsFrom src before (render (a ++ b)) = varsFrom src ((render a).reverse ++ before) (render b) := by
  induction a generalizing before with
  | nil => rfl
  | cons x a ih =>
    have hreverse : (render (x :: a)).reverse ++ before = (render a).reverse ++ (x.text.reverse ++ before) := by
      rw [render_cons, List.reverse_append, List.append_assoc]
    rw [hreverse]
    rcases x with c | text
    · have hsync : Sync before (.code c :: (a ++ b)) := hsync
      obtain ⟨hcode, hrest⟩ := hsync.code
      obtain ⟨hmark, hsilent⟩ := hsilent
      rw [← render_append] at hmark
      show varsFrom src before (c :: render (a ++ b)) = _
      rw [varsFrom_code hcode hmark]
      exact ih hrest hsilent
    · have hsync : Sync before (.skip text :: (a ++ b)) := hsync
      obtain ⟨hrest, c, more, hwhole, hskip, htake, hdrop⟩ := hsync.skip
      show varsFrom src before (text ++ render (a ++ b)) = _
      rw [hwhole, varsFrom]
      dsimp only
      rw [if_pos hskip, htake, hdrop]
      exact ih hrest hsilent

theorem firstStop_append {a b : List Atom} (ha : ∀ c, .code c ∈ a → c ≠ '(' ∧ c ≠ '{' ∧ c ≠ ';') :
    firstStop (a ++ b) = firstStop b := by
  induction a with
  | nil => rfl
  | cons x a ih =>
    have hrest := ih fun c hc => ha c (List.mem_cons_of_mem x hc)
    rcases x with c | text
    · obtain ⟨hround, hbrace, hsemi⟩ := ha c List.mem_cons_self
      show (if c = '(' ∨ c = '{' ∨ c = ';' then some c else firstStop (a ++ b)) = _
      rw [if_neg (by tauto), hrest]
    · exact hrest

/-- What a text has up to its first semicolon of code. -/
def upToSemi (atoms : List Atom) : List Atom :=
  atoms.takeWhile (· ≠ .code ';')

theorem upToSemi_append {a : List Atom} (ha : .code ';' ∉ a) (b : List Atom) :
    upToSemi (a ++ .code ';' :: b) = a := by
  unfold upToSemi
  rw [List.takeWhile_append_of_pos, List.takeWhile_cons_of_neg, List.append_nil]
  · simp
  · intro x hx
    have hne : x ≠ .code ';' := fun h => ha (h ▸ hx)
    simpa using hne

theorem findCodeChar_append {c : Char} {a : List Atom} (ha : .code c ∉ a) (b : List Atom) :
    findCodeChar c (a ++ .code c :: b) = some (render a).length := by
  induction a with
  | nil => exact if_pos rfl
  | cons x a ih =>
    have hrest := ih fun h => ha (List.mem_cons_of_mem x h)
    rw [render_cons, List.length_append]
    rcases x with d | text
    · have hd : d ≠ c := fun h => ha (h ▸ List.mem_cons_self)
      show (if d = c then some 0 else (findCodeChar c (a ++ .code c :: b)).map (1 + ·)) = _
      rw [if_neg hd, hrest]
      rfl
    · show (findCodeChar c (a ++ .code c :: b)).map (text.length + ·) = _
      rw [hrest]
      rfl

theorem firstStop_append_some {a : List Atom} {c : Char} (h : firstStop a = some c) (b : List Atom) :
    firstStop (a ++ b) = some c := by
  induction a with
  | nil => exact absurd h nofun
  | cons x a ih =>
    rcases x with d | text
    · have hstep : ∀ a, firstStop (.code d :: a) = if d = '(' ∨ d = '{' ∨ d = ';' then some d else firstStop a :=
        fun _ => rfl
      rw [hstep] at h
      show firstStop (.code d :: (a ++ b)) = some c
      rw [hstep]
      by_cases hd : d = '(' ∨ d = '{' ∨ d = ';'
      · rw [if_pos hd] at h ⊢
        exact h
      · rw [if_neg hd] at h ⊢
        exact ih h
    · exact ih h

theorem exists_firstStop {x : Char} (hx : x = ';' ∨ x = '{') (a b : List Atom) :
    ∃ stop, firstStop (a ++ .code x :: b) = some stop := by
  induction a with
  | nil =>
    refine ⟨x, if_pos ?_⟩
    tauto
  | cons x a ih =>
    rcases x with d | text
    · show ∃ stop, (if d = '(' ∨ d = '{' ∨ d = ';' then some d else firstStop (a ++ .code x :: b)) = some stop
      by_cases hd : d = '(' ∨ d = '{' ∨ d = ';'
      · exact ⟨d, if_pos hd⟩
      · rw [if_neg hd]
        exact ih
    · exact ih

/-- What is before a text without brace and semicolon cannot hide that it looks like a function. -/
theorem Loud.behind {a b : List Atom} (ha : ∀ c, .code c ∈ a → c ≠ '{' ∧ c ≠ ';') (hb : Loud b) : Loud (a ++ b) := by
  induction a with
  | nil => exact hb
  | cons x a ih =>
    have hrest := ih fun c hc => ha c (List.mem_cons_of_mem x hc)
    rcases x with d | text
    · obtain ⟨hbrace, hsemi⟩ := ha d List.mem_cons_self
      show (if d = '(' ∨ d = '{' ∨ d = ';' then some d else firstStop (a ++ b)) = some '('
      by_cases hround : d = '('
      · rw [if_pos (.inl hround), hround]
      · rw [if_neg (by tauto)]
        exact hrest
    · exact hrest

/-- A mark and what is behind it, up to the next, have no brace and no semicolon. -/
def Clear (marks : List (Mark × List Atom)) : Prop :=
  ∀ m ∈ marks, ∀ c, .code c ∈ m.2 → c ≠ '{' ∧ c ≠ '}' ∧ c ≠ ';'

theorem markAtoms_cons (m : Mark) (gap : List Atom) (marks : List (Mark × List Atom)) :
    markAtoms ((m, gap) :: marks) = m.word.map .code ++ (gap ++ markAtoms marks) :=
  List.append_assoc ..

theorem word_clear (m : Mark) : ∀ c ∈ m.word, c ≠ '{' ∧ c ≠ '}' ∧ c ≠ ';' := by
  rcases m with _ | _
  · decide
  · decide

theorem Clear.code {marks : List (Mark × List Atom)} (h : Clear marks) :
    ∀ c, .code c ∈ markAtoms marks → c ≠ '{' ∧ c ≠ '}' ∧ c ≠ ';' := by
  intro c hc
  obtain ⟨⟨m, gap⟩, hmem, hc⟩ := List.mem_flatMap.mp hc
  rcases List.mem_append.mp hc with hc | hc
  · obtain ⟨x, hx, hsame⟩ := List.mem_map.mp hc
    rw [← Atom.code.inj hsame]
    exact word_clear m x hx
  · exact h (m, gap) hmem c hc

theorem silent_append_iff {before : List Char} {a b : List Atom} {behind : List Char} :
    Silent before (a ++ b) behind ↔
      Silent before a (render b ++ behind) ∧ Silent ((render a).reverse ++ before) b behind := by
  induction a generalizing before with
  | nil => exact ⟨fun h => ⟨trivial, h⟩, fun h => h.2⟩
  | cons x a ih =>
    rw [render_cons, List.reverse_append, List.append_assoc]
    rcases x with c | text
    · show markAt before (c :: (render (a ++ b) ++ behind)) = none ∧ Silent (c :: before) (a ++ b) behind ↔
        (_ ∧ Silent (c :: before) a (render b ++ behind)) ∧ _
      rw [ih, render_append, List.append_assoc, and_assoc]
      rfl
    · exact ih

/-- The name that `find_device_vars` takes. -/
def nameBehind (behind : List Atom) : List Char :=
  lastIdent (beforeInit (render (upToSemi behind)))

/-- What is recorded of a declaration: the first of its marks that does not look like that of a function. -/
def taken (before : List Char) (tail : List Atom) : List (Mark × List Atom) → List (ℕ × DeviceVar)
  | [] => []
  | (m, gap) :: marks =>
    if Loud (gap ++ (markAtoms marks ++ tail)) then
      taken ((render gap).reverse ++ (m.word.reverse ++ before)) tail marks
    else if nameBehind (gap ++ (markAtoms marks ++ tail)) = [] then []
    else [(before.length, ⟨nameBehind (gap ++ (markAtoms marks ++ tail)), m == .constant, lineOf before⟩)]

/-- At a mark, with the first bracket or semicolon behind it known. -/
theorem varsFrom_mark {src before : List Char} {m : Mark} {behind : List Atom} {stop : Char}
    (hsync : Sync before (m.word.map .code ++ behind)) (hmark : markAt before (m.word ++ render behind) = some m)
    (hdepth : nonNamespaceDepth src before.length = 0) (hstop : firstStop behind = some stop) :
    varsFrom src before (m.word ++ render behind) =
      if stop = '(' then varsFrom src (m.word.reverse ++ before) (render behind)
      else
        match findCodeChar ';' behind with
        | none => varsFrom src (m.word.reverse ++ before) (render behind)
        | some semi =>
          (if lastIdent (beforeInit ((render behind).take semi)) = [] then []
            else [(before.length, ⟨lastIdent (beforeInit ((render behind).take semi)), m == .constant, lineOf before⟩)]) ++
            varsFrom src (((render behind).take (semi + 1)).reverse ++ (m.word.reverse ++ before))
              ((render behind).drop (semi + 1)) := by
  have hscan : scan (m.word.reverse ++ before) (render behind) = behind := by
    have hnext := hsync.append
    rwa [render_code] at hnext
  obtain ⟨c, w, hw⟩ := List.exists_cons_of_ne_nil (word_ne_nil m)
  have hcode : skipNoncode before (c :: (w ++ render behind)) = 0 :=
    skipNoncode_ordinary (word_ordinary m c (hw ▸ List.mem_cons_self)) _ _
  have hwhole : c :: (w ++ render behind) = m.word ++ render behind := by
    rw [hw]
    rfl
  rw [← hwhole, varsFrom]
  dsimp only
  rw [if_neg (not_not.mpr hcode), hwhole, hmark]
  dsimp only
  rw [if_neg (not_not.mpr hdepth), List.drop_left, hscan, hstop]

theorem varsFrom_loud {src before : List Char} {m : Mark} {behind : List Atom}
    (hsync : Sync before (m.word.map .code ++ behind)) (hmark : markAt before (m.word ++ render behind) = some m)
    (hdepth : nonNamespaceDepth src before.length = 0) (hloud : Loud behind) :
    varsFrom src before (m.word ++ render behind) = varsFrom src (m.word.reverse ++ before) (render behind) := by
  rw [varsFrom_mark hsync hmark hdepth hloud, if_pos rfl]

theorem varsFrom_quiet {src before : List Char} {m : Mark} {decl more : List Atom}
    (hsync : Sync before (m.word.map .code ++ (decl ++ .code ';' :: more)))
    (hmark : markAt before (m.word ++ render (decl ++ .code ';' :: more)) = some m)
    (hdepth : nonNamespaceDepth src before.length = 0) {stop : Char} (hstop : firstStop (decl ++ .code ';' :: more) = some stop)
    (hquiet : stop ≠ '(') (hdecl : .code ';' ∉ decl) :
    varsFrom src before (m.word ++ render (decl ++ .code ';' :: more)) =
      (if lastIdent (beforeInit (render decl)) = [] then []
        else [(before.length, ⟨lastIdent (beforeInit (render decl)), m == .constant, lineOf before⟩)]) ++
        varsFrom src (';' :: ((render decl).reverse ++ (m.word.reverse ++ before))) (render more) := by
  have hrender : render (decl ++ .code ';' :: more) = render decl ++ [';'] ++ render more := by
    rw [render_append, List.append_assoc]
    rfl
  have hlength : (render decl).length + 1 = (render decl ++ [';']).length := by simp
  rw [varsFrom_mark hsync hmark hdepth hstop, if_neg hquiet, findCodeChar_append hdecl]
  dsimp only
  rw [hlength, hrender, List.take_left, List.drop_left, List.append_assoc, List.take_left, List.reverse_append]
  rfl

/-- The loop over the marks of a declaration and what is behind them. -/
theorem varsFrom_marks (src : List Char) {p b tail : List Atom} {marks : List (Mark × List Atom)}
    (hsrc : src = render (p ++ (markAtoms marks ++ (tail ++ b)))) (hsync : Sync [] (p ++ (markAtoms marks ++ (tail ++ b))))
    (hp : Nested '{' '}' 0 p) (hclear : Clear marks)
    (hmarks : MarksRead (render p).reverse marks (render tail ++ render b))
    (htail : Silent ((render (markAtoms marks)).reverse ++ (render p).reverse) tail (render b))
    (hend : .code ';' ∈ tail ∨ Loud tail) :
    varsFrom src (render p).reverse (render (markAtoms marks ++ (tail ++ b))) =
      taken (render p).reverse tail marks ++
        varsFrom src ((render tail).reverse ++ ((render (markAtoms marks)).reverse ++ (render p).reverse)) (render b) := by
  induction marks generalizing p with
  | nil =>
    have hrest : Sync ((render p).reverse ++ []) (tail ++ b) := hsync.append
    rw [List.append_nil] at hrest
    exact varsFrom_silent src hrest htail
  | cons mg marks ih =>
    obtain ⟨m, gap⟩ := mg
    obtain ⟨hmark, hgap, hmarks⟩ := hmarks
    have hclear' : Clear marks := fun x hx => hclear x (List.mem_cons_of_mem _ hx)
    have hgapClear := hclear (m, gap) List.mem_cons_self
    have hatoms : markAtoms ((m, gap) :: marks) ++ (tail ++ b) =
        m.word.map .code ++ (gap ++ (markAtoms marks ++ (tail ++ b))) := by
      rw [markAtoms_cons, List.append_assoc, List.append_assoc]
    rw [hatoms] at hsrc hsync ⊢
    have hhere : Sync (render p).reverse (m.word.map .code ++ (gap ++ (markAtoms marks ++ (tail ++ b)))) := by
      have hnext := hsync.append
      rwa [List.append_nil] at hnext
    have hdepth : nonNamespaceDepth src (render p).reverse.length = 0 := by
      rw [hsrc, List.length_reverse]
      apply depthFrom_zero _ _ _ _ rfl hsync hp ⟨rfl, List.Pairwise.nil, fun f hf => absurd hf List.not_mem_nil⟩ rfl
      exact (Nat.zero_add _).symm
    have hmark : markAt (render p).reverse (m.word ++ render (gap ++ (markAtoms marks ++ (tail ++ b)))) = some m := by
      simpa only [render_append, List.append_assoc] using hmark
    have hbehind : gap ++ (markAtoms marks ++ (tail ++ b)) = gap ++ (markAtoms marks ++ tail) ++ b := by
      simp only [List.append_assoc]
    rw [render_append, render_code]
    by_cases hloud : Loud (gap ++ (markAtoms marks ++ tail))
    · have hall : Loud (gap ++ (markAtoms marks ++ (tail ++ b))) := by
        rw [hbehind]
        exact firstStop_append_some hloud b
      rw [varsFrom_loud hhere hmark hdepth hall]
      have hnext : Sync (m.word.reverse ++ (render p).reverse) (gap ++ (markAtoms marks ++ (tail ++ b))) := by
        have hnext := hhere.append
        rwa [render_code] at hnext
      rw [varsFrom_silent src hnext]
      · have hbefore : (render (p ++ (m.word.map .code ++ gap))).reverse =
            (render gap).reverse ++ (m.word.reverse ++ (render p).reverse) := by
          rw [render_append, render_append, render_code, List.reverse_append, List.reverse_append, List.append_assoc]
        have hassoc : p ++ (m.word.map .code ++ (gap ++ (markAtoms marks ++ (tail ++ b)))) =
            p ++ (m.word.map .code ++ gap) ++ (markAtoms marks ++ (tail ++ b)) := by
          simp only [List.append_assoc]
        have hwhole : (render (markAtoms ((m, gap) :: marks))).reverse ++ (render p).reverse =
            (render (markAtoms marks)).reverse ++ (render (p ++ (m.word.map .code ++ gap))).reverse := by
          rw [hbefore, markAtoms_cons, render_append, render_append, render_code]
          simp only [List.reverse_append, List.append_assoc]
        rw [hassoc] at hsrc hsync
        rw [← hbefore] at hmarks
        rw [hwhole] at htail ⊢
        have hstep : taken (render p).reverse tail ((m, gap) :: marks) =
            taken ((render gap).reverse ++ (m.word.reverse ++ (render p).reverse)) tail marks := if_pos hloud
        rw [hstep, ← hbefore]
        apply ih hsrc hsync _ hclear' hmarks htail
        apply hp.concat
        rw [nested_append_iff, ← List.append_nil gap, nested_append_iff]
        · rfl
        · intro c hc
          exact ⟨(hgapClear c hc).1, (hgapClear c hc).2.1⟩
        · intro c hc
          obtain ⟨x, hx, hsame⟩ := List.mem_map.mp hc
          rw [← Atom.code.inj hsame]
          exact ⟨(word_clear m x hx).1, (word_clear m x hx).2.1⟩
      · rw [render_append, render_append]
        exact hgap
    · -- it does not look like a function, so that there is a semicolon in what is behind the marks
      have hsemi : .code ';' ∈ tail := by
        apply hend.resolve_right
        intro htail
        apply hloud
        apply Loud.behind fun c hc => ⟨(hgapClear c hc).1, (hgapClear c hc).2.2⟩
        exact Loud.behind (fun c hc => ⟨(hclear'.code c hc).1, (hclear'.code c hc).2.2⟩) htail
      obtain ⟨front, back, rfl, hfront⟩ := List.eq_append_cons_of_mem hsemi
      have hdecl : .code ';' ∉ gap ++ (markAtoms marks ++ front) := by
        intro hmem
        rcases List.mem_append.mp hmem with hmem | hmem
        · exact (hgapClear _ hmem).2.2 rfl
        · rcases List.mem_append.mp hmem with hmem | hmem
          · exact (hclear'.code _ hmem).2.2 rfl
          · exact hfront hmem
      have hown : gap ++ (markAtoms marks ++ (front ++ .code ';' :: back)) =
          gap ++ (markAtoms marks ++ front) ++ .code ';' :: back := by
        simp only [List.append_assoc]
      have hrest : gap ++ (markAtoms marks ++ (front ++ .code ';' :: back ++ b)) =
          gap ++ (markAtoms marks ++ front) ++ .code ';' :: (back ++ b) := by
        simp only [List.append_assoc, List.cons_append]
      have hname : nameBehind (gap ++ (markAtoms marks ++ (front ++ .code ';' :: back))) =
          lastIdent (beforeInit (render (gap ++ (markAtoms marks ++ front)))) := by
        unfold nameBehind
        rw [hown, upToSemi_append hdecl]
      obtain ⟨stop, hstop⟩ := exists_firstStop (.inl rfl) (gap ++ (markAtoms marks ++ front)) back
      have hquiet : stop ≠ '(' := by
        rintro rfl
        rw [hown] at hloud
        exact hloud hstop
      have hstop' : firstStop (gap ++ (markAtoms marks ++ front) ++ .code ';' :: (back ++ b)) = some stop := by
        have hmore := firstStop_append_some hstop b
        rwa [List.append_assoc, List.cons_append] at hmore
      rw [hrest] at hhere hmark ⊢
      rw [varsFrom_quiet hhere hmark hdepth hstop' hquiet hdecl]
      have hstep : taken (render p).reverse (front ++ .code ';' :: back) ((m, gap) :: marks) =
          if nameBehind (gap ++ (markAtoms marks ++ (front ++ .code ';' :: back))) = [] then []
          else [((render p).reverse.length, ⟨nameBehind (gap ++ (markAtoms marks ++ (front ++ .code ';' :: back))),
            m == .constant, lineOf (render p).reverse⟩)] := if_neg hloud
      rw [hstep, hname]
      congr 1
      -- the rest of the declaration
      have hbefore : ';' :: ((render (gap ++ (markAtoms marks ++ front))).reverse ++
          (m.word.reverse ++ (render p).reverse)) = (render (front ++ [.code ';'])).reverse ++
            ((render (markAtoms ((m, gap) :: marks))).reverse ++ (render p).reverse) := by
        rw [markAtoms_cons]
        simp only [render_append, render_code, List.reverse_append, List.append_assoc]
        rfl
      have hback : front ++ .code ';' :: back = front ++ [.code ';'] ++ back := by simp
      rw [hback] at htail ⊢
      have hsplit : ∀ w : List Char, (render (front ++ [.code ';'] ++ back)).reverse ++ w =
          (render back).reverse ++ ((render (front ++ [.code ';'])).reverse ++ w) := by
        intro w
        rw [render_append, List.reverse_append, List.append_assoc]
      rw [hbefore, hsplit]
      apply varsFrom_silent src _ (silent_append_iff.mp htail).2
      have hlast := hhere.append
      rw [render_code] at hlast
      have hassoc : gap ++ (markAtoms marks ++ front) ++ .code ';' :: (back ++ b) =
          gap ++ (markAtoms marks ++ (front ++ [.code ';'])) ++ (back ++ b) := by simp
      rw [hassoc] at hlast
      have hlast := hlast.append
      rw [← hbefore]
      simpa [render_append, render_cons, Atom.text, render] using hlast

/-! ## Which variables are recorded -/

/-- A text ends in a name, but for characters that are of no identifier. -/
def EndsIn (name text : List Char) : Prop :=
  ∃ a b, text = a ++ name ++ b ∧ a.getLast?.any identChar = false ∧ ∀ c ∈ b, identChar c = false

theorem lastIdent_iff {name text : List Char} (hne : name ≠ []) (hname : ∀ c ∈ name, identChar c = true) :
    lastIdent text = name ↔ EndsIn name text := by
  constructor
  · rintro rfl
    have hsome : ∃ c ∈ text, identChar c = true := by
      by_contra hnone
      push Not at hnone
      exact hne (lastIdent_eq_nil.mpr fun c hc => by simpa using hnone c hc)
    obtain ⟨a, b, hsplit, -, ha, hb⟩ := lastIdent_spec hsome
    exact ⟨a, b, hsplit, ha, hb⟩
  · rintro ⟨a, b, rfl, ha, hb⟩
    exact lastIdent_eq hne hname ha hb

/-- The first mark of a declaration behind which a brace or a semicolon comes before any round bracket is there,
is `__constant__` if the variable is, and the text behind it ends in the name before the first `[`, `=` or `;`. -/
def MarkedRight (name : List Char) (constant : Bool) (tail : List Atom) : List (Mark × List Atom) → Prop
  | [] => False
  | (m, gap) :: marks =>
    if Loud (gap ++ (markAtoms marks ++ tail)) then MarkedRight name constant tail marks
    else (m == .constant) = constant ∧ EndsIn name (beforeInit (render (upToSemi (gap ++ (markAtoms marks ++ tail)))))

theorem taken_iff {name : List Char} (hne : name ≠ []) (hname : ∀ c ∈ name, identChar c = true) (constant : Bool)
    (before : List Char) (tail : List Atom) (marks : List (Mark × List Atom)) :
    (taken before tail marks).map (fun r => (r.2.name, r.2.isConstant)) = [(name, constant)] ↔
      MarkedRight name constant tail marks := by
  induction marks generalizing before with
  | nil => exact ⟨fun h => absurd h nofun, fun h => h.elim⟩
  | cons mg marks ih =>
    obtain ⟨m, gap⟩ := mg
    unfold taken MarkedRight
    by_cases hloud : Loud (gap ++ (markAtoms marks ++ tail))
    · rw [if_pos hloud, if_pos hloud]
      exact ih _
    · rw [if_neg hloud, if_neg hloud, ← lastIdent_iff hne hname]
      show (if nameBehind (gap ++ (markAtoms marks ++ tail)) = [] then _ else _ : List (ℕ × DeviceVar)).map _ = _ ↔
        _ ∧ nameBehind (gap ++ (markAtoms marks ++ tail)) = name
      by_cases hnil : nameBehind (gap ++ (markAtoms marks ++ tail)) = []
      · rw [if_pos hnil, hnil]
        exact ⟨fun h => absurd h nofun, fun h => absurd h.2.symm hne⟩
      · rw [if_neg hnil, List.map_singleton]
        simp only [List.cons.injEq, Prod.mk.injEq, and_true]
        exact and_comm

theorem taken_length (before : List Char) (tail : List Atom) (marks : List (Mark × List Atom)) :
    (taken before tail marks).length ≤ 1 := by
  induction marks generalizing before with
  | nil => exact Nat.zero_le 1
  | cons mg marks ih =>
    obtain ⟨m, gap⟩ := mg
    unfold taken
    split
    · exact ih _
    · split
      · exact Nat.zero_le 1
      · exact le_rfl

/-- Nothing is recorded of what looks like a function. -/
theorem taken_loud {tail : List Atom} (htail : Loud tail) {marks : List (Mark × List Atom)} (hclear : Clear marks)
    (before : List Char) : taken before tail marks = [] := by
  induction marks generalizing before with
  | nil => rfl
  | cons mg marks ih =>
    obtain ⟨m, gap⟩ := mg
    have hclear' : Clear marks := fun x hx => hclear x (List.mem_cons_of_mem _ hx)
    have hloud : Loud (gap ++ (markAtoms marks ++ tail)) := by
      apply Loud.behind fun c hc => ⟨(hclear (m, gap) List.mem_cons_self c hc).1,
        (hclear (m, gap) List.mem_cons_self c hc).2.2⟩
      exact Loud.behind (fun c hc => ⟨(hclear'.code c hc).1, (hclear'.code c hc).2.2⟩) htail
    unfold taken
    rw [if_pos hloud]
    exact ih hclear' _

theorem taken_bounds {before : List Char} {tail : List Atom} {marks : List (Mark × List Atom)} {r : ℕ × DeviceVar}
    (h : r ∈ taken before tail marks) :
    before.length ≤ r.1 ∧ r.1 < before.length + (render (markAtoms marks)).length := by
  induction marks generalizing before with
  | nil => exact absurd h List.not_mem_nil
  | cons mg marks ih =>
    obtain ⟨m, gap⟩ := mg
    rw [markAtoms_cons, render_append, render_append, render_code, List.length_append, List.length_append]
    have hword := List.length_pos_of_ne_nil (word_ne_nil m)
    unfold taken at h
    split at h
    · have hrest := ih h
      simp only [List.length_append, List.length_reverse] at hrest
      omega
    · split at h
      · exact absurd h List.not_mem_nil
      · rw [List.mem_singleton.mp h]
        dsimp only
        omega

/-- A loop records only what is from its position on. -/
theorem varsFrom_bound {src before text : List Char} {r : ℕ × DeviceVar} (h : r ∈ varsFrom src before text) :
    before.length ≤ r.1 := by
  have hmore : ∀ {x before : List Char}, (x ++ before).length ≤ r.1 → before.length ≤ r.1 := by
    intro x before hle
    rw [List.length_append] at hle
    omega
  induction before, text using varsFrom.induct src with
  | case1 before =>
    rw [varsFrom] at h
    exact absurd h List.not_mem_nil
  | case2 before c rest k hskip =>
    rename_i ih
    rw [varsFrom] at h
    dsimp only at h
    rw [if_pos hskip] at h
    exact hmore (ih h)
  | case3 before c rest k hskip hmark =>
    rename_i ih
    rw [varsFrom] at h
    dsimp only at h
    rw [if_neg hskip, hmark] at h
    exact Nat.le_of_succ_le (ih h)
  | case4 before c rest k hskip m hmark past behind =>
    rename_i hdepth ih
    rw [varsFrom] at h
    dsimp only at h
    rw [if_neg hskip, hmark] at h
    dsimp only at h
    rw [if_pos hdepth] at h
    exact hmore (ih h)
  | case5 before c rest k hskip m hmark past behind =>
    rename_i hdepth hstop ih
    rw [varsFrom] at h
    dsimp only at h
    rw [if_neg hskip, hmark] at h
    dsimp only at h
    rw [if_neg hdepth, hstop] at h
    exact hmore (ih h)
  | case6 before c rest k hskip m hmark past behind =>
    rename_i hdepth hstop ih
    rw [varsFrom] at h
    dsimp only at h
    rw [if_neg hskip, hmark] at h
    dsimp only at h
    rw [if_neg hdepth, hstop] at h
    dsimp only at h
    rw [if_pos rfl] at h
    exact hmore (ih h)
  | case7 before c rest k hskip m hmark past behind =>
    rename_i hdepth stop hstop hround hsemi ih
    rw [varsFrom] at h
    dsimp only at h
    rw [if_neg hskip, hmark] at h
    dsimp only at h
    rw [if_neg hdepth, hstop] at h
    dsimp only at h
    rw [if_neg hround, hsemi] at h
    exact hmore (ih h)
  | case8 before c rest k hskip m hmark past behind =>
    rename_i hdepth stop hstop hround semi hsemi ih
    rw [varsFrom] at h
    dsimp only at h
    rw [if_neg hskip, hmark] at h
    dsimp only at h
    rw [if_neg hdepth, hstop] at h
    dsimp only at h
    rw [if_neg hround, hsemi] at h
    rcases List.mem_append.mp h with h | h
    · split at h
      · exact absurd h List.not_mem_nil
      · rw [List.mem_singleton.mp h]
    · exact hmore (hmore (ih h))

/-- What is recorded with its mark in a declaration are its names, with the constant flag. -/
def Declaration.Recorded (lo : ℕ) (records : List (ℕ × DeviceVar)) (d : Declaration) : Prop :=
  (records.filter fun r => decide (lo ≤ r.1 ∧ r.1 < lo + (render d.own).length)).map
    (fun r => (r.2.name, r.2.isConstant)) = d.names.map (·, d.constant)

/-- Each variable of some declarations is recorded once, under its name, and no function is. -/
def AllRecorded (records : List (ℕ × DeviceVar)) : ℕ → List Declaration → Prop
  | _, [] => True
  | lo, d :: decls =>
    d.Recorded (lo + (render d.lead).length) records ∧ AllRecorded records (lo + (render d.atoms).length) decls

/-- A variable has one declarator, and the first of its marks that does not look like that of a function is right. -/
def Declaration.VarGood (d : Declaration) : Prop :=
  match d.tail with
  | .var _ first more => more = [] ∧ MarkedRight first.name d.constant d.tail.atoms d.marks
  | .func .. => True

theorem tail_semi_or_loud {d : Declaration} (hfunc : ∀ both signature body, d.tail = .func both signature body →
    Loud d.tail.atoms) : .code ';' ∈ d.tail.atoms ∨ Loud d.tail.atoms := by
  rcases htail : d.tail with ⟨type, first, more⟩ | ⟨both, signature, body⟩
  · left
    exact List.mem_append_right _ List.mem_cons_self
  · right
    rw [← htail]
    exact hfunc both signature body htail

/-- One declaration. -/
theorem taken_recorded_iff {d : Declaration} (hclear : Clear d.marks)
    (hfunc : ∀ both signature body, d.tail = .func both signature body → Loud d.tail.atoms) (before : List Char) :
    (taken before d.tail.atoms d.marks).map (fun r => (r.2.name, r.2.isConstant)) = d.names.map (·, d.constant) ↔
      d.VarGood := by
  unfold Declaration.names Declaration.VarGood
  rcases htail : d.tail with ⟨type, first, more⟩ | ⟨both, signature, body⟩
  · dsimp only
    by_cases hmore : more = []
    · subst hmore
      have hiff := taken_iff first.ident.1 first.ident.2 d.constant before (Tail.var type first []).atoms d.marks
      rw [List.map_nil, List.map_singleton, hiff]
      exact ⟨fun h => ⟨rfl, h⟩, fun h => h.2⟩
    · constructor
      · intro heq
        -- at most one is recorded
        have hlength := congrArg List.length heq
        simp only [List.length_map, List.length_cons] at hlength
        have hone := taken_length before (Tail.var type first more).atoms d.marks
        exact absurd (List.length_eq_zero_iff.mp (by omega)) hmore
      · intro h
        exact absurd h.1 hmore
  · dsimp only
    have hloud := hfunc both signature body htail
    rw [htail] at hloud
    rw [taken_loud hloud hclear]
    exact ⟨fun _ => trivial, fun _ => rfl⟩

/-- The loop over a declaration. -/
theorem varsFrom_decl (src : List Char) {p b : List Atom} {d : Declaration} (hsrc : src = render (p ++ (d.atoms ++ b)))
    (hsync : Sync [] (p ++ (d.atoms ++ b))) (hp : Nested '{' '}' 0 p) (hshaped : d.Shaped)
    (hreads : d.Reads (render p).reverse (render b)) (hend : .code ';' ∈ d.tail.atoms ∨ Loud d.tail.atoms) :
    varsFrom src (render p).reverse (render (d.atoms ++ b)) =
      taken (render (p ++ (d.lead ++ d.pre))).reverse d.tail.atoms d.marks ++
        varsFrom src (render (p ++ d.atoms)).reverse (render b) := by
  obtain ⟨-, hlead, hpre, -, hclear, -⟩ := hshaped
  obtain ⟨hleadSilent, hpreSilent, hmarks, htail⟩ := hreads
  have hreverse : ∀ a b : List Atom, (render (a ++ b)).reverse = (render b).reverse ++ (render a).reverse := by
    intro a b
    rw [render_append, List.reverse_append]
  have hatoms : d.atoms ++ b = d.lead ++ d.pre ++ (markAtoms d.marks ++ (d.tail.atoms ++ b)) := by
    unfold Declaration.atoms Declaration.own
    simp only [List.append_assoc]
  have hassoc : p ++ (d.atoms ++ b) = p ++ (d.lead ++ d.pre) ++ (markAtoms d.marks ++ (d.tail.atoms ++ b)) := by
    rw [hatoms]
    simp only [List.append_assoc]
  have hsilent : Silent (render p).reverse (d.lead ++ d.pre) (render (markAtoms d.marks ++ (d.tail.atoms ++ b))) := by
    apply silent_append_iff.mpr ⟨?_, ?_⟩
    · simpa only [Declaration.own, render_append, List.append_assoc] using hleadSilent
    · simpa only [render_append, List.append_assoc] using hpreSilent
  have hhere : Sync (render p).reverse (d.lead ++ d.pre ++ (markAtoms d.marks ++ (d.tail.atoms ++ b))) := by
    have hnext := hsync.append
    rwa [List.append_nil, hatoms] at hnext
  have hlast : (render (p ++ d.atoms)).reverse = (render d.tail.atoms).reverse ++ ((render (markAtoms d.marks)).reverse ++
      (render (p ++ (d.lead ++ d.pre))).reverse) := by
    rw [← hreverse, ← hreverse]
    unfold Declaration.atoms Declaration.own
    simp only [List.append_assoc]
  rw [hatoms, varsFrom_silent src hhere hsilent, ← hreverse, hlast]
  rw [hassoc] at hsrc hsync
  apply varsFrom_marks src hsrc hsync (hp.concat (hlead.concat hpre)) hclear
  · rw [hreverse]
    exact hmarks
  · rw [hreverse p, ← List.append_assoc, ← hreverse]
    exact htail
  · exact hend

theorem nested_decl {p : List Atom} {d : Declaration} (hp : Nested '{' '}' 0 p) (hshaped : d.Shaped) :
    Nested '{' '}' 0 (p ++ d.atoms) := by
  obtain ⟨-, hlead, hpre, htail, hclear, -⟩ := hshaped
  apply hp.concat (hlead.concat (hpre.concat _))
  rw [nested_append_iff fun c hc => ⟨(Clear.code hclear c hc).1, (Clear.code hclear c hc).2.1⟩]
  exact htail

/-- Which variables are recorded, of declarations of which each function looks like one. -/
theorem allRecorded_iff (src : List Char) {p rest : List Atom} {decls : List Declaration} {acc : List (ℕ × DeviceVar)}
    (hsrc : src = render (p ++ (declAtoms decls ++ rest))) (hsync : Sync [] (p ++ (declAtoms decls ++ rest)))
    (hp : Nested '{' '}' 0 p) (hshaped : ∀ d ∈ decls, d.Shaped)
    (hfunc : ∀ d ∈ decls, ∀ both signature body, d.tail = .func both signature body → Loud d.tail.atoms)
    (hreads : DeclsRead (render p).reverse decls (render rest)) (hacc : ∀ r ∈ acc, r.1 < (render p).length) :
    AllRecorded (acc ++ varsFrom src (render p).reverse (render (declAtoms decls ++ rest))) (render p).length decls ↔
      ∀ d ∈ decls, d.VarGood := by
  induction decls generalizing p acc with
  | nil => exact ⟨fun _ d hd => absurd hd List.not_mem_nil, fun _ => trivial⟩
  | cons d decls ih =>
    obtain ⟨hread, hreads⟩ := hreads
    have hd := hshaped d List.mem_cons_self
    have hfuncHere := hfunc d List.mem_cons_self
    have hatoms : declAtoms (d :: decls) ++ rest = d.atoms ++ (declAtoms decls ++ rest) := List.append_assoc ..
    rw [← render_append] at hread
    rw [hatoms] at hsrc hsync ⊢
    have hclear : Clear d.marks := hd.2.2.2.2.1
    rw [varsFrom_decl src hsrc hsync hp hd hread (tail_semi_or_loud hfuncHere)]
    have hown : (render d.atoms).length = (render d.lead).length + (render d.own).length := by
      unfold Declaration.atoms
      rw [render_append, List.length_append]
    have hwhole : (render p).length + (render d.atoms).length = (render (p ++ d.atoms)).length := by
      rw [render_append, List.length_append]
    have htaken : ∀ r ∈ taken (render (p ++ (d.lead ++ d.pre))).reverse d.tail.atoms d.marks,
        (render p).length + (render d.lead).length ≤ r.1 ∧ r.1 < (render (p ++ d.atoms)).length := by
      intro r hr
      have hbounds := taken_bounds hr
      unfold Declaration.atoms Declaration.own
      simp only [render_append, List.length_append, List.length_reverse] at hbounds ⊢
      omega
    have hlater : ∀ r ∈ varsFrom src (render (p ++ d.atoms)).reverse (render (declAtoms decls ++ rest)),
        (render (p ++ d.atoms)).length ≤ r.1 := by
      intro r hr
      have hbound := varsFrom_bound hr
      rwa [List.length_reverse] at hbound
    have hassoc : p ++ (d.atoms ++ (declAtoms decls ++ rest)) = p ++ d.atoms ++ (declAtoms decls ++ rest) :=
      (List.append_assoc ..).symm
    have hreverse : (render (p ++ d.atoms)).reverse = (render d.atoms).reverse ++ (render p).reverse := by
      rw [render_append, List.reverse_append]
    -- those of this declaration are told from the others by their positions
    have hhere : d.Recorded ((render p).length + (render d.lead).length)
        (acc ++ (taken (render (p ++ (d.lead ++ d.pre))).reverse d.tail.atoms d.marks ++
          varsFrom src (render (p ++ d.atoms)).reverse (render (declAtoms decls ++ rest)))) ↔ d.VarGood := by
      rw [← taken_recorded_iff hclear hfuncHere (render (p ++ (d.lead ++ d.pre))).reverse]
      unfold Declaration.Recorded
      rw [List.filter_append, List.filter_append, List.filter_eq_nil_iff.mpr, List.filter_eq_self.mpr,
        List.filter_eq_nil_iff.mpr, List.nil_append, List.append_nil]
      · intro r hr
        have hbound := hlater r hr
        simp only [decide_eq_true_eq, not_and, not_lt]
        omega
      · intro r hr
        have hbound := htaken r hr
        rw [decide_eq_true_eq]
        omega
      · intro r hr
        have hbound := hacc r hr
        simp only [decide_eq_true_eq, not_and, not_lt]
        omega
    show d.Recorded _ _ ∧ AllRecorded _ ((render p).length + (render d.atoms).length) decls ↔ _
    rw [hhere, hwhole, ← List.append_assoc, ih (by rw [← hassoc]; exact hsrc) (by rw [← hassoc]; exact hsync) (nested_decl hp hd)
      (fun x hx => hshaped x (List.mem_cons_of_mem d hx)) (fun x hx => hfunc x (List.mem_cons_of_mem d hx))
      (by rw [hreverse]; exact hreads), List.forall_mem_cons]
    intro r hr
    rcases List.mem_append.mp hr with hr | hr
    · have hbound := hacc r hr
      omega
    · exact (htaken r hr).2

/-- Where each variable is as it should be, those that are returned are those that are declared. -/
theorem varsFrom_file (src : List Char) {p rest : List Atom} {decls : List Declaration}
    (hsrc : src = render (p ++ (declAtoms decls ++ rest))) (hsync : Sync [] (p ++ (declAtoms decls ++ rest)))
    (hp : Nested '{' '}' 0 p) (hshaped : ∀ d ∈ decls, d.Shaped)
    (hfunc : ∀ d ∈ decls, ∀ both signature body, d.tail = .func both signature body → Loud d.tail.atoms)
    (hreads : DeclsRead (render p).reverse decls (render rest))
    (hrest : Silent (render (p ++ declAtoms decls)).reverse rest []) (hgood : ∀ d ∈ decls, d.VarGood) :
    (varsFrom src (render p).reverse (render (declAtoms decls ++ rest))).map (fun r => (r.2.name, r.2.isConstant)) =
      decls.flatMap fun d => d.names.map (·, d.constant) := by
  induction decls generalizing p with
  | nil =>
    have hnext : Sync ((render p).reverse ++ []) rest := hsync.append
    rw [List.append_nil] at hnext
    have hall : rest = rest ++ [] := (List.append_nil rest).symm
    have hsilent : Silent (render p).reverse rest (render []) := by
      have hnil : p ++ declAtoms [] = p := List.append_nil p
      rwa [hnil] at hrest
    show (varsFrom src (render p).reverse (render rest)).map _ = []
    rw [hall, varsFrom_silent src (hall ▸ hnext) hsilent]
    show (varsFrom src _ []).map _ = []
    rw [varsFrom, List.map_nil]
  | cons d decls ih =>
    obtain ⟨hread, hreads⟩ := hreads
    have hd := hshaped d List.mem_cons_self
    have hfuncHere := hfunc d List.mem_cons_self
    have hatoms : declAtoms (d :: decls) ++ rest = d.atoms ++ (declAtoms decls ++ rest) := List.append_assoc ..
    have hassoc : p ++ (d.atoms ++ (declAtoms decls ++ rest)) = p ++ d.atoms ++ (declAtoms decls ++ rest) :=
      (List.append_assoc ..).symm
    have hreverse : (render (p ++ d.atoms)).reverse = (render d.atoms).reverse ++ (render p).reverse := by
      rw [render_append, List.reverse_append]
    have hrest' : Silent (render (p ++ d.atoms ++ declAtoms decls)).reverse rest [] := by
      rw [List.append_assoc]
      exact hrest
    rw [← render_append] at hread
    rw [hatoms] at hsrc hsync ⊢
    rw [varsFrom_decl src hsrc hsync hp hd hread (tail_semi_or_loud hfuncHere), List.map_append, List.flatMap_cons]
    have hclear : Clear d.marks := hd.2.2.2.2.1
    rw [(taken_recorded_iff hclear hfuncHere _).mpr (hgood d List.mem_cons_self)]
    rw [hassoc] at hsrc hsync
    rw [ih hsrc hsync (nested_decl hp hd) (fun x hx => hshaped x (List.mem_cons_of_mem d hx))
      (fun x hx => hfunc x (List.mem_cons_of_mem d hx)) (hreverse ▸ hreads) hrest'
      fun x hx => hgood x (List.mem_cons_of_mem d hx)]

end Grxcp.Grxcc
