import Grxcp.Grxcc.Lexer

/-!
# The parameters of a kernel

What `find_kernels` makes of a parameter list: `split_params` cuts it at its commas, and `split_param`
takes the last identifier of each piece for the name of the parameter. That is the parameter's name where
no identifier follows it, and there is one.
-/

namespace Grxcp.Grxcc

/-! ## Names -/

/-- The last identifier of a text. -/
def lastIdent (text : List Char) : List Char :=
  (text.rdropWhile fun c => !identChar c).rtakeWhile identChar

/-- `Param`. -/
structure Param where
  decl : List Char
  name : List Char
  isPointer : Bool

/-- The loop of `split_param` that looks for a `*` at top level: the depth of brackets, and what it has
found. -/
def pointerStep (s : ℤ × Bool) (c : Char) : ℤ × Bool :=
  if c = '(' ∨ c = '[' then (s.1 + 1, s.2)
  else if c = ')' ∨ c = ']' then (s.1 - 1, s.2)
  else if (c = '*' ∨ c = '&') ∧ s.1 = 0 then (s.1, c == '*')
  else s

/-- `split_param`. -/
def splitParam (declIn : List Char) : Option Param :=
  let decl := trim declIn
  if decl = [] ∨ decl = "void".toList then none
  else
    let name := lastIdent decl
    if name = [] then none else some ⟨decl, name, (decl.foldl pointerStep (0, false)).2⟩

/-- What `find_kernels` makes of a parameter: the kernel has it, or there is an error that this parameter
has no name. -/
inductive Outcome where
  | param (p : Param)
  | noName (t : List Char)

/-- The loop of `find_kernels` over a parameter list. -/
def readParams (list : List Char) : List Outcome :=
  (splitParams list).filterMap fun d =>
    let t := trim d
    if t = [] ∨ t = "void".toList then none
    else
      match splitParam t with
      | none => some (.noName t)
      | some p => some (.param p)

/-! ## Parameters -/

/-- A parameter as it is declared: its name, which is empty when it has none, and the text around it. -/
structure Declared where
  before : List Char
  name : List Char
  after : List Char
  ident : ∀ c ∈ name, identChar c = true
  left : name ≠ [] → before.getLast?.any identChar = false
  right : name ≠ [] → after.head?.any identChar = false
  proper : trim (before ++ name ++ after) ≠ [] ∧ trim (before ++ name ++ after) ≠ "void".toList

def Declared.text (p : Declared) : List Char :=
  p.before ++ p.name ++ p.after

/-- A parameter with a name, and nothing behind it. -/
def Declared.Plain (p : Declared) : Prop :=
  p.name ≠ [] ∧ p.after.all isSpace = true

/-- A parameter is returned as it is declared, or refused where it is not a plain one. -/
def Declared.RightOrRefused (p : Declared) : Outcome → Prop
  | .param q => q.decl = trim p.text ∧ q.name = p.name ∧ p.name ≠ []
  | .noName t => t = trim p.text ∧ ¬p.Plain

/-- The text of a parameter list. -/
def listText (ps : List Declared) : List Char :=
  [','].intercalate (ps.map Declared.text)

/-- A text declares some parameters: none where it is blank or `void`. -/
def Declares (list : List Char) (ps : List Declared) : Prop :=
  (ps = [] ∧ (trim list = [] ∨ trim list = "void".toList)) ∨ (ps ≠ [] ∧ list = listText ps)

/-- The last identifier of a parameter is its name. It is where no identifier follows the name; and a
parameter without a name has no identifier. -/
def Declared.NameLast (p : Declared) : Prop :=
  if p.name = [] then ∀ c ∈ p.text, identChar c = false
  else (∀ c ∈ p.after, identChar c = false) ∨ lastIdent p.after = p.name

instance (p : Declared) : Decidable p.NameLast :=
  inferInstanceAs (Decidable (if p.name = [] then _ else _))

/-! ## The last identifier -/

theorem lastIdent_eq {a n b : List Char} (hne : n ≠ []) (hn : ∀ c ∈ n, identChar c = true)
    (ha : a.getLast?.any identChar = false) (hb : ∀ c ∈ b, identChar c = false) :
    lastIdent (a ++ n ++ b) = n := by
  have hrest : (a ++ n ++ b).rdropWhile (fun c => !identChar c) = a ++ n := by
    obtain ⟨n', x, rfl⟩ := List.eq_nil_or_concat n |>.resolve_left hne
    induction b using List.reverseRecOn with
    | nil =>
      rw [List.append_nil, List.concat_eq_append, ← List.append_assoc, List.rdropWhile_concat_neg]
      have hx := hn x (by simp)
      simp [hx]
    | append_singleton b y ih =>
      rw [← List.append_assoc, List.rdropWhile_concat_pos, ih fun c hc => hb c (by simp [hc])]
      have hy := hb y (by simp)
      simp [hy]
  have htake : (a ++ n).rtakeWhile identChar = n := by
    unfold List.rtakeWhile
    rw [List.reverse_append, List.takeWhile_append_of_pos fun c hc => hn c (List.mem_reverse.mp hc)]
    have hstop : a.reverse.takeWhile identChar = [] := by
      rw [List.getLast?_eq_head?_reverse] at ha
      rcases hrev : a.reverse with _ | ⟨x, a'⟩
      · rfl
      · rw [hrev] at ha
        exact List.takeWhile_cons_of_neg (by simpa using ha)
    rw [hstop, List.append_nil, List.reverse_reverse]
  unfold lastIdent
  rw [hrest, htake]

/-- A text with an identifier has a last one. -/
theorem lastIdent_spec {text : List Char} (h : ∃ c ∈ text, identChar c = true) :
    ∃ a b, text = a ++ lastIdent text ++ b ∧ lastIdent text ≠ [] ∧ a.getLast?.any identChar = false ∧
      ∀ c ∈ b, identChar c = false := by
  have hkept : text.rdropWhile (fun c => !identChar c) ≠ [] := by
    intro hnil
    obtain ⟨c, hc, hident⟩ := h
    have hall := List.rdropWhile_eq_nil_iff.mp hnil c hc
    simp [hident] at hall
  have hlast := List.rdropWhile_last_not (p := fun c => !identChar c) text hkept
  refine ⟨(text.rdropWhile fun c => !identChar c).rdropWhile identChar, text.rtakeWhile fun c => !identChar c,
    ?_, ?_, ?_, ?_⟩
  · unfold lastIdent
    rw [List.rdropWhile_append_rtakeWhile, List.rdropWhile_append_rtakeWhile]
  · intro hnil
    exact List.rtakeWhile_eq_nil_iff.mp hnil hkept (by simpa using hlast)
  · by_cases hempty : (text.rdropWhile fun c => !identChar c).rdropWhile identChar = []
    · rw [hempty]
      rfl
    · have hnot := List.rdropWhile_last_not (p := identChar) _ hempty
      rw [List.getLast?_eq_getLast_of_ne_nil hempty]
      simpa using hnot
  · intro c hc
    have hnot := List.mem_rtakeWhile_imp hc
    simpa using hnot

theorem lastIdent_eq_nil {text : List Char} : lastIdent text = [] ↔ ∀ c ∈ text, identChar c = false := by
  constructor
  · intro hnil c hc
    by_contra hident
    obtain ⟨a, b, -, hne, -⟩ := lastIdent_spec ⟨c, hc, by simpa using hident⟩
    exact hne hnil
  · intro hall
    have hdrop : text.rdropWhile (fun c => !identChar c) = [] := by
      rw [List.rdropWhile_eq_nil_iff]
      intro c hc
      simp [hall c hc]
    unfold lastIdent
    rw [hdrop]
    rfl

/-- What is before an identifier in a text does not change which one is last. -/
theorem lastIdent_append {a b : List Char} (h : ∃ c ∈ b, identChar c = true)
    (hb : b.head?.any identChar = false) : lastIdent (a ++ b) = lastIdent b := by
  obtain ⟨a', b', hsplit, hne, ha', hb'⟩ := lastIdent_spec h
  have hident : ∀ c ∈ lastIdent b, identChar c = true := fun c hc => List.mem_rtakeWhile_imp hc
  have hjoin : a ++ b = a ++ a' ++ lastIdent b ++ b' := by
    conv_lhs => rw [hsplit]
    simp only [List.append_assoc]
  rw [hjoin]
  apply lastIdent_eq hne hident ?_ hb'
  rcases List.eq_nil_or_concat a' with rfl | ⟨a'', x, rfl⟩
  · -- the identifier would be at the head of `b`
    obtain ⟨x, n, hn⟩ := List.exists_cons_of_ne_nil hne
    rw [hsplit, hn] at hb
    have hx : identChar x = true := hident x (hn ▸ List.mem_cons_self)
    simp [hx] at hb
  · simpa using ha'

/-! ## Trimming -/

/-- How many characters of a text are not blank. -/
def weight (text : List Char) : ℕ :=
  text.countP fun c => !isSpace c

theorem weight_append (a b : List Char) : weight (a ++ b) = weight a + weight b :=
  List.countP_append

theorem weight_blank {text : List Char} (h : ∀ c ∈ text, isSpace c = true) : weight text = 0 := by
  rw [weight, List.countP_eq_zero]
  intro c hc
  simp [h c hc]

/-- A text is its trimmed text between blanks. -/
theorem trim_spec (text : List Char) : ∃ a b, text = a ++ trim text ++ b ∧ (∀ c ∈ a, isSpace c = true) ∧
    ∀ c ∈ b, isSpace c = true := by
  refine ⟨text.takeWhile isSpace, (text.dropWhile isSpace).rtakeWhile isSpace, ?_, fun c hc => ?_, fun c hc => ?_⟩
  · unfold trim
    rw [List.append_assoc, List.rdropWhile_append_rtakeWhile, List.takeWhile_append_dropWhile]
  · exact List.mem_takeWhile_imp hc
  · exact List.mem_rtakeWhile_imp hc

theorem weight_trim (text : List Char) : weight (trim text) = weight text := by
  obtain ⟨a, b, hsplit, ha, hb⟩ := trim_spec text
  conv_rhs => rw [hsplit]
  rw [weight_append, weight_append, weight_blank ha, weight_blank hb, Nat.zero_add, Nat.add_zero]

theorem trim_blank {text : List Char} (h : ∀ c ∈ text, isSpace c = true) : trim text = [] := by
  unfold trim
  rw [List.dropWhile_eq_nil_iff.mpr h]
  rfl

theorem trim_trim (text : List Char) : trim (trim text) = trim text := by
  have hdrop : (trim text).dropWhile isSpace = trim text := by
    unfold trim
    rcases hrest : text.dropWhile isSpace with _ | ⟨c, rest⟩
    · rfl
    · have hc : isSpace c = false := by
        have hhead := List.head?_dropWhile_not isSpace text
        rw [hrest] at hhead
        simpa using hhead
      have hpre := List.rdropWhile_prefix isSpace (c :: rest)
      rcases hkept : (c :: rest).rdropWhile isSpace with _ | ⟨x, kept⟩
      · rfl
      · rw [hkept] at hpre
        obtain ⟨tail, htail⟩ := hpre
        have hx : x = c := (List.cons.inj htail).1
        rw [List.dropWhile_cons_of_neg (by simp [hx, hc])]
  have hright : (trim text).rdropWhile isSpace = trim text := List.rdropWhile_idempotent _ _
  show ((trim text).dropWhile isSpace).rdropWhile isSpace = _
  rw [hdrop, hright]

theorem lastIdent_trim (text : List Char) : lastIdent (trim text) = lastIdent text := by
  obtain ⟨a, b, hsplit, ha, hb⟩ := trim_spec text
  by_cases h : ∃ c ∈ trim text, identChar c = true
  · obtain ⟨a', b', hinner, hne, ha', hb'⟩ := lastIdent_spec h
    have hident : ∀ c ∈ lastIdent (trim text), identChar c = true := fun c hc => List.mem_rtakeWhile_imp hc
    have hjoin : text = a ++ a' ++ lastIdent (trim text) ++ (b' ++ b) := by
      conv_lhs => rw [hsplit, hinner]
      simp only [List.append_assoc]
    conv_rhs => rw [hjoin]
    symm
    apply lastIdent_eq hne hident
    · rcases List.eq_nil_or_concat a' with rfl | ⟨a'', x, rfl⟩
      · rw [List.append_nil]
        rcases List.eq_nil_or_concat a with rfl | ⟨a'', x, rfl⟩
        · rfl
        · simpa using identChar_of_space (ha x (by simp))
      · simpa using ha'
    · intro c hc
      rcases List.mem_append.mp hc with hc | hc
      · exact hb' c hc
      · exact identChar_of_space (hb c hc)
  · have hnone : ∀ c ∈ trim text, identChar c = false := by
      intro c hc
      by_contra hident
      exact h ⟨c, hc, by simpa using hident⟩
    rw [lastIdent_eq_nil.mpr hnone]
    symm
    rw [lastIdent_eq_nil, hsplit]
    intro c hc
    rcases List.mem_append.mp hc with hc | hc
    · rcases List.mem_append.mp hc with hc | hc
      · exact identChar_of_space (ha c hc)
      · exact hnone c hc
    · exact identChar_of_space (hb c hc)

/-! ## Pieces -/

theorem weight_intercalate {pieces : List (List Char)} (h : pieces ≠ []) :
    weight ([','].intercalate pieces) + 1 = (pieces.map weight).sum + pieces.length := by
  induction pieces with
  | nil => exact absurd rfl h
  | cons x pieces ih =>
    rcases pieces with _ | ⟨y, pieces⟩
    · simp [List.intercalate]
    · have hcomma : weight [','] = 1 := rfl
      have hrest := ih (List.cons_ne_nil y pieces)
      rw [List.intercalate_cons_cons, weight_append, weight_append, hcomma, List.map_cons, List.sum_cons,
        List.length_cons]
      omega

/-- A list of pieces is known from its text and the trimmed pieces. -/
theorem pieces_ext {xs ys : List (List Char)} (htext : [','].intercalate xs = [','].intercalate ys)
    (htrim : xs.map trim = ys.map trim) : xs = ys := by
  induction xs generalizing ys with
  | nil =>
    rcases ys with _ | ⟨y, ys⟩
    · rfl
    · exact absurd htrim nofun
  | cons x xs ih =>
    rcases ys with _ | ⟨y, ys⟩
    · exact absurd htrim nofun
    obtain ⟨hhead, htail⟩ := List.cons.inj htrim
    have hweight : weight x = weight y := by rw [← weight_trim x, hhead, weight_trim]
    rcases xs with _ | ⟨x', xs⟩
    · rcases ys with _ | ⟨y', ys⟩
      · simpa [List.intercalate] using htext
      · exact absurd htail nofun
    · rcases ys with _ | ⟨y', ys⟩
      · exact absurd htail nofun
      rw [List.intercalate_cons_cons, List.intercalate_cons_cons, List.append_assoc, List.append_assoc] at htext
      -- one of the first pieces is the other with a comma behind it, unless they are the same
      have hlonger : ∀ {a b A B : List Char}, weight a = weight b → a ++ ([','] ++ A) = b ++ ([','] ++ B) →
          a.length ≤ b.length → a = b := by
        intro a b A B hw h hle
        obtain ⟨more, rfl⟩ : a <+: b := List.prefix_of_prefix_length_le
          (h ▸ List.prefix_append a _) (List.prefix_append b _) hle
        rcases more with _ | ⟨c, more⟩
        · rw [List.append_nil]
        · rw [List.append_assoc, List.append_cancel_left_eq] at h
          have hc : c = ',' := (List.cons.inj h).1.symm
          subst hc
          rw [weight_append] at hw
          have hpos : weight (',' :: more) = weight more + 1 := by
            unfold weight
            rw [List.countP_cons_of_pos]
            decide
          omega
      have hsame : x = y := by
        rcases le_total x.length y.length with hle | hle
        · exact hlonger hweight htext hle
        · exact (hlonger hweight.symm htext.symm hle).symm
      subst hsame
      rw [List.append_cancel_left_eq, List.append_cancel_left_eq] at htext
      rw [ih htext htail]

/-- What is read of one piece. -/
def readPiece (d : List Char) : Option Outcome :=
  if trim d = [] ∨ trim d = "void".toList then none
  else if lastIdent d = [] then some (.noName (trim d))
  else some (.param ⟨trim d, lastIdent d, ((trim d).foldl pointerStep (0, false)).2⟩)

theorem readParams_eq (list : List Char) : readParams list = (splitParams list).filterMap readPiece := by
  apply List.filterMap_congr
  intro d _
  unfold readPiece splitParam
  dsimp only
  rw [trim_trim, lastIdent_trim]
  by_cases hskip : trim d = [] ∨ trim d = "void".toList
  · rw [if_pos hskip, if_pos hskip]
  · rw [if_neg hskip, if_neg hskip, if_neg hskip]
    by_cases hname : lastIdent d = []
    · rw [if_pos hname, if_pos hname]
    · rw [if_neg hname, if_neg hname]

/-- The text that an outcome is about. -/
def Outcome.text : Outcome → List Char
  | .param q => q.decl
  | .noName t => t

theorem readPiece_text {d : List Char} {o : Outcome} (h : readPiece d = some o) : o.text = trim d := by
  unfold readPiece at h
  split_ifs at h
  · rw [← Option.some.inj h]
    rfl
  · rw [← Option.some.inj h]
    rfl

theorem Declared.RightOrRefused.text_eq {p : Declared} {o : Outcome} (h : p.RightOrRefused o) :
    o.text = trim p.text := by
  rcases o with q | t
  · exact h.1
  · exact h.1

theorem filterMap_text (pieces : List (List Char)) : (pieces.filterMap readPiece).map Outcome.text =
    (pieces.filter fun d => (readPiece d).isSome).map trim := by
  induction pieces with
  | nil => rfl
  | cons d pieces ih =>
    rcases hd : readPiece d with _ | o
    · rw [List.filterMap_cons_none hd, List.filter_cons_of_neg (by simp [hd]), ih]
    · rw [List.filterMap_cons_some hd, List.filter_cons_of_pos (by simp [hd]), List.map_cons, List.map_cons, ih,
        readPiece_text hd]

/-- Pieces that are read as some parameters are the texts of these parameters. -/
theorem pieces_eq_of_read {ps : List Declared} (hps : ps ≠ []) {pieces : List (List Char)}
    (htext : [','].intercalate pieces = listText ps)
    (hread : List.Forall₂ Declared.RightOrRefused ps (pieces.filterMap readPiece)) :
    pieces = ps.map Declared.text := by
  have hkept : (pieces.filter fun d => (readPiece d).isSome).map trim = (ps.map Declared.text).map trim := by
    rw [← filterMap_text, List.map_map]
    have hsame : List.Forall₂ (fun p o => trim p.text = Outcome.text o) ps (pieces.filterMap readPiece) :=
      hread.imp fun _ _ h => h.text_eq.symm
    have hmaps := List.forall₂_map_left_iff.mpr (List.forall₂_map_right_iff.mpr hsame)
    rw [List.forall₂_eq_eq_eq] at hmaps
    exact hmaps.symm
  have hlengths := congrArg List.length hkept
  rw [List.length_map, List.length_map, List.length_map] at hlengths
  have hpieces : pieces ≠ [] := by
    rintro rfl
    exact hps (List.length_eq_zero_iff.mp hlengths.symm)
  -- a piece that was left out would have taken weight, or a comma, from the others
  have hall : (pieces.filter fun d => (readPiece d).isSome) = pieces := by
    have hwhole := weight_intercalate hpieces
    have hdeclared : weight ([','].intercalate (ps.map Declared.text)) + 1 = _ :=
      weight_intercalate fun h => hps (List.map_eq_nil_iff.mp h)
    have hsub := List.Sublist.map weight (List.filter_sublist (p := fun d => (readPiece d).isSome) (l := pieces))
    have hsum := hsub.sum_le_sum fun _ _ => Nat.zero_le _
    have hle := List.length_filter_le (fun d => (readPiece d).isSome) pieces
    have hweights : ((pieces.filter fun d => (readPiece d).isSome).map weight).sum =
        ((ps.map Declared.text).map weight).sum := by
      have htrimmed := congrArg (fun l => (l.map weight).sum) hkept
      rw [List.map_map, List.map_map] at htrimmed
      have hfun : weight ∘ trim = weight := funext weight_trim
      rwa [hfun] at htrimmed
    rw [htext] at hwhole
    have hlist : weight (listText ps) + 1 = ((ps.map Declared.text).map weight).sum + ps.length := by
      rw [← List.length_map (f := Declared.text)]
      exact hdeclared
    exact List.filter_sublist.eq_of_length_le (by omega)
  rw [hall] at hkept
  exact pieces_ext htext hkept

/-! ## Lists of parameters -/

/-- What is read of a parameter is right, or it is refused, where its last identifier is its name. -/
theorem read_iff (p : Declared) :
    ∃ o, readPiece p.text = some o ∧ (p.RightOrRefused o ↔ p.NameLast) := by
  have hproper : ¬(trim p.text = [] ∨ trim p.text = "void".toList) := fun h => h.elim p.proper.1 p.proper.2
  unfold readPiece
  rw [if_neg hproper]
  by_cases hnamed : p.name = []
  · by_cases hident : lastIdent p.text = []
    · refine ⟨.noName (trim p.text), if_pos hident, ?_⟩
      have hlast : p.NameLast := by
        unfold Declared.NameLast
        rw [if_pos hnamed]
        exact lastIdent_eq_nil.mp hident
      exact ⟨fun _ => hlast, fun _ => ⟨rfl, fun h => h.1 hnamed⟩⟩
    · refine ⟨_, if_neg hident, fun h => absurd hnamed h.2.2, fun h => ?_⟩
      unfold Declared.NameLast at h
      rw [if_pos hnamed] at h
      exact absurd (lastIdent_eq_nil.mpr h) hident
  · have hident : lastIdent p.text ≠ [] := by
      intro hnil
      obtain ⟨c, name, hname⟩ := List.exists_cons_of_ne_nil hnamed
      have hc := p.ident c (hname ▸ List.mem_cons_self)
      have hnone := lastIdent_eq_nil.mp hnil c (by simp [Declared.text, hname])
      rw [hc] at hnone
      exact absurd hnone nofun
    refine ⟨_, if_neg hident, ?_⟩
    show (trim p.text = trim p.text ∧ lastIdent p.text = p.name ∧ p.name ≠ []) ↔ _
    unfold Declared.NameLast
    rw [if_neg hnamed]
    by_cases hafter : ∀ c ∈ p.after, identChar c = false
    · have hlast : lastIdent p.text = p.name := lastIdent_eq hnamed p.ident (p.left hnamed) hafter
      exact ⟨fun _ => .inl hafter, fun _ => ⟨rfl, hlast, hnamed⟩⟩
    · have hsome : ∃ c ∈ p.after, identChar c = true := by
        by_contra hnone
        apply hafter
        intro c hc
        by_contra hident
        exact hnone ⟨c, hc, by simpa using hident⟩
      have hlast : lastIdent p.text = lastIdent p.after := lastIdent_append hsome (p.right hnamed)
      rw [hlast]
      exact ⟨fun h => .inr h.2.1, fun h => ⟨rfl, h.resolve_left hafter, hnamed⟩⟩

theorem forall₂_read_iff (ps : List Declared) :
    List.Forall₂ Declared.RightOrRefused ps ((ps.map Declared.text).filterMap readPiece) ↔
      ∀ p ∈ ps, p.NameLast := by
  induction ps with
  | nil => exact ⟨nofun, fun _ => .nil⟩
  | cons p ps ih =>
    obtain ⟨o, ho, hiff⟩ := read_iff p
    rw [List.map_cons, List.filterMap_cons_some ho, List.forall₂_cons, hiff, ih, List.forall_mem_cons]

/-- A text of blanks and ordinary characters is one piece. -/
theorem splitFrom_ordinary {text : List Char} (h : ∀ c ∈ text, Ordinary c ∧ c ≠ ',') (before : List Char)
    (d : Depth) (piece : List Char) : splitFrom d piece (scan before text) = [piece ++ text] := by
  induction text generalizing before d piece with
  | nil =>
    rw [scan_nil, List.append_nil]
    rfl
  | cons c text ih =>
    obtain ⟨hc, hcomma⟩ := h c List.mem_cons_self
    rw [scan_code (skipNoncode_ordinary hc before text)]
    show (if _ then _ else splitFrom (d.step c) (piece ++ [c]) _) = _
    rw [if_neg fun h => hcomma h.1, ih fun x hx => h x (List.mem_cons_of_mem c hx), List.append_assoc]
    rfl

theorem ordinary_of_space {c : Char} (h : isSpace c = true) : Ordinary c ∧ c ≠ ',' := by
  unfold isSpace at h
  simp only [Bool.or_eq_true, beq_iff_eq] at h
  rcases h with ((((rfl | rfl) | rfl) | rfl) | rfl) | rfl <;> decide

/-- A blank list, or `void`, has no parameters. -/
theorem readParams_none {list : List Char} (h : trim list = [] ∨ trim list = "void".toList) :
    readParams list = [] := by
  have hordinary : ∀ c ∈ list, Ordinary c ∧ c ≠ ',' := by
    obtain ⟨a, b, hsplit, ha, hb⟩ := trim_spec list
    intro c hc
    rw [hsplit] at hc
    rcases List.mem_append.mp hc with hc | hc
    · rcases List.mem_append.mp hc with hc | hc
      · exact ordinary_of_space (ha c hc)
      · rcases h with h | h
        · rw [h] at hc
          exact absurd hc List.not_mem_nil
        · rw [h] at hc
          have hvoid : ∀ c ∈ "void".toList, Ordinary c ∧ c ≠ ',' := by decide
          exact hvoid c hc
    · exact ordinary_of_space (hb c hc)
  have hpiece : readPiece list = none := if_pos h
  rw [readParams_eq]
  unfold splitParams
  rw [splitFrom_ordinary hordinary, List.nil_append]
  dsimp only
  split
  · rfl
  · exact List.filterMap_cons_none hpiece

/-- `const float* p`. -/
def constFloatP : Declared where
  before := "const float* ".toList
  name := "p".toList
  after := []
  ident := by decide
  left := fun _ => by decide
  right := fun _ => rfl
  proper := by decide

/-- ` int n`. -/
def intN : Declared where
  before := " int ".toList
  name := "n".toList
  after := []
  ident := by decide
  left := fun _ => by decide
  right := fun _ => rfl
  proper := by decide

/-- `float*`, with no name. -/
def floatPointer : Declared where
  before := "float*".toList
  name := []
  after := []
  ident := nofun
  left := fun h => absurd rfl h
  right := fun h => absurd rfl h
  proper := by decide

end Grxcp.Grxcc
