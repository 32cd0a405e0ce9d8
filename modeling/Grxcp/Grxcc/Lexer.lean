import Mathlib.Data.List.DropRight
import Mathlib.Tactic

/-!
# The lexer of grxcc

`skip_noncode` of `tools/grxcc/main.cpp` and the loops over it. A position in a text is what is before it,
last character first, and what is after it. `scan` is the loop that all of them share: at each position a
construct that is not code is skipped whole, and where there is none one character is read.
-/

namespace Grxcp.Grxcc

-- what is said of the characters of a text is looked up in the text, not among all characters
instance decidableText {p : Char → Prop} [DecidablePred p] (text : List Char) : Decidable (∀ c ∈ text, p c) :=
  List.decidableBAll p text

/-- `ident_char`. -/
def identChar (c : Char) : Bool :=
  c.isAlphanum || c == '_'

/-- `std::isspace`. -/
def isSpace (c : Char) : Bool :=
  c == ' ' || c == '\t' || c == '\n' || c == '\x0b' || c == '\x0c' || c == '\r'

/-- `std::string::find`, of a text. -/
def find (pat : List Char) : List Char → Option ℕ
  | [] => if pat = [] then some 0 else none
  | c :: text => if pat.isPrefixOf (c :: text) then some 0 else (find pat text).map (· + 1)

/-- The loop of `skip_noncode` behind a quote `q`: the characters up to the end of the literal, or of the
text where the literal has no end. -/
def quoted (q : Char) : List Char → ℕ
  | [] => 0
  | ['\\'] => 1
  | '\\' :: _ :: text => 2 + quoted q text
  | c :: text => if c = q then 1 else 1 + quoted q text

/-- `skip_noncode`: how many characters it advances, which is none where the text is code. -/
def skipNoncode (before text : List Char) : ℕ :=
  match text with
  | '/' :: '/' :: _ => (find ['\n'] text).getD text.length
  | '/' :: '*' :: body =>
    match find ['*', '/'] body with
    | some e => 2 + e + 2
    | none => text.length
  | 'R' :: '"' :: body =>
    if before.head?.any identChar then 0
    else
      match find ['('] body with
      | some paren =>
        let close := ')' :: (body.take paren ++ ['"'])
        match find close (body.drop paren) with
        | some e => 2 + paren + e + close.length
        | none => text.length
      | none => 0
  | '"' :: body => 1 + quoted '"' body
  | '\'' :: body => 1 + quoted '\'' body
  | _ => 0

/-- A step of a loop over `skip_noncode`. -/
inductive Atom where
  | code (c : Char)
  | skip (text : List Char)
deriving DecidableEq

def Atom.text : Atom → List Char
  | code c => [c]
  | skip text => text

/-- The text of the steps. -/
def render (atoms : List Atom) : List Char :=
  atoms.flatMap Atom.text

/-- A loop over `skip_noncode`, from a position on. -/
def scan (before text : List Char) : List Atom :=
  match text with
  | [] => []
  | c :: rest =>
    if skipNoncode before (c :: rest) = 0 then .code c :: scan (c :: before) rest
    else
      .skip ((c :: rest).take (skipNoncode before (c :: rest))) ::
        scan (((c :: rest).take (skipNoncode before (c :: rest))).reverse ++ before)
          ((c :: rest).drop (skipNoncode before (c :: rest)))
termination_by text.length
decreasing_by
  · simp
  · simp only [List.length_drop, List.length_cons]
    omega

/-- The loop of `match_bracket` for brackets `o` and `c`: how many characters there are to the end of the
bracket. -/
def matchFrom (o c : Char) (depth : ℤ) : List Atom → Option ℕ
  | [] => none
  | .skip text :: rest => (matchFrom o c depth rest).map (text.length + ·)
  | .code x :: rest =>
    if x = o then (matchFrom o c (depth + 1) rest).map (1 + ·)
    else if x = c then
      if depth - 1 = 0 then some 1 else (matchFrom o c (depth - 1) rest).map (1 + ·)
    else (matchFrom o c depth rest).map (1 + ·)

/-- `match_bracket`, of a text that starts with the bracket. -/
def matchBracket (before text : List Char) : Option ℕ :=
  let o := text.headD ' '
  let c := if o = '(' then ')' else if o = '{' then '}' else ']'
  matchFrom o c 0 (scan before text)

/-- `find_code_char`. -/
def findCodeChar (c : Char) : List Atom → Option ℕ
  | [] => none
  | .skip text :: rest => (findCodeChar c rest).map (text.length + ·)
  | .code x :: rest => if x = c then some 0 else (findCodeChar c rest).map (1 + ·)

/-- `trim`. -/
def trim (s : List Char) : List Char :=
  (s.dropWhile isSpace).rdropWhile isSpace

/-- The depths that `split_params` counts. -/
structure Depth where
  round : ℤ := 0
  square : ℤ := 0
  angle : ℤ := 0
deriving DecidableEq

/-- How a character of code changes them. -/
def Depth.step (d : Depth) (c : Char) : Depth :=
  if c = '(' then { d with round := d.round + 1 }
  else if c = ')' then { d with round := d.round - 1 }
  else if c = '[' then { d with square := d.square + 1 }
  else if c = ']' then { d with square := d.square - 1 }
  else if c = '<' then { d with angle := d.angle + 1 }
  else if c = '>' then { d with angle := d.angle - 1 }
  else d

/-- The loop of `split_params`, with the piece that is being read. -/
def splitFrom (d : Depth) (piece : List Char) : List Atom → List (List Char)
  | [] => [piece]
  | .skip text :: rest => splitFrom d (piece ++ text) rest
  | .code c :: rest =>
    if c = ',' ∧ d = {} then piece :: splitFrom d [] rest else splitFrom (d.step c) (piece ++ [c]) rest

/-- `split_params`. A list that is all blank has no pieces. -/
def splitParams (list : List Char) : List (List Char) :=
  let pieces := splitFrom {} [] (scan [] list)
  if pieces.length = 1 ∧ list.all isSpace then [] else pieces

/-- `line_of`, of what is before a position. -/
def lineOf (before : List Char) : ℕ :=
  1 + before.countP (· == '\n')

/-! ## Finding -/

theorem find_cons (pat : List Char) (c : Char) (text : List Char) :
    find pat (c :: text) = if pat.isPrefixOf (c :: text) then some 0 else (find pat text).map (· + 1) :=
  rfl

/-- A text that is found is there. -/
theorem find_spec {pat text : List Char} {n : ℕ} (h : find pat text = some n) : pat <+: text.drop n := by
  induction text generalizing n with
  | nil =>
    by_cases hpat : pat = []
    · rw [hpat]
      exact List.nil_prefix
    · have hnone : find pat [] = none := if_neg hpat
      rw [hnone] at h
      exact absurd h nofun
  | cons c text ih =>
    rw [find_cons] at h
    by_cases hpre : pat.isPrefixOf (c :: text) = true
    · rw [if_pos hpre] at h
      rw [← Option.some.inj h]
      exact List.isPrefixOf_iff_prefix.mp hpre
    · rw [if_neg hpre] at h
      obtain ⟨m, hm, rfl⟩ := Option.map_eq_some_iff.mp h
      exact ih hm

/-- A text is found no later than where it is. -/
theorem find_append_le (pat a b : List Char) : ∃ n ≤ a.length, find pat (a ++ (pat ++ b)) = some n := by
  induction a with
  | nil =>
    refine ⟨0, le_rfl, ?_⟩
    rw [List.nil_append]
    rcases hpat : pat ++ b with _ | ⟨c, text⟩
    · have hnil : pat = [] := (List.append_eq_nil_iff.mp hpat).1
      exact if_pos hnil
    · rw [find_cons, if_pos]
      exact List.isPrefixOf_iff_prefix.mpr (hpat ▸ List.prefix_append pat b)
  | cons c a ih =>
    obtain ⟨n, hn, hfind⟩ := ih
    rw [List.cons_append, find_cons]
    by_cases hpre : pat.isPrefixOf (c :: (a ++ (pat ++ b))) = true
    · exact ⟨0, Nat.zero_le _, if_pos hpre⟩
    · refine ⟨n + 1, Nat.succ_le_succ hn, ?_⟩
      rw [if_neg hpre, hfind]
      rfl

/-- What is found in a text is found in a longer one. -/
theorem find_append {pat text : List Char} {n : ℕ} (h : find pat text = some n) (more : List Char) :
    find pat (text ++ more) = some n := by
  induction text generalizing n with
  | nil =>
    by_cases hpat : pat = []
    · have hn : find pat [] = some 0 := if_pos hpat
      rw [hn] at h
      rw [← Option.some.inj h, hpat]
      rcases more with _ | ⟨c, more⟩
      · rfl
      · rfl
    · have hnone : find pat [] = none := if_neg hpat
      rw [hnone] at h
      exact absurd h nofun
  | cons c text ih =>
    rw [find_cons] at h
    rw [List.cons_append, find_cons]
    by_cases hpre : pat.isPrefixOf (c :: text) = true
    · rw [if_pos hpre] at h
      rw [if_pos, h]
      rw [List.isPrefixOf_iff_prefix] at hpre ⊢
      exact hpre.trans (List.prefix_append (c :: text) more)
    · rw [if_neg hpre] at h
      obtain ⟨m, hm, rfl⟩ := Option.map_eq_some_iff.mp h
      -- it would not fit before the end of the shorter text
      have hfits : pat.length ≤ (c :: text).length := by
        have hlength := (find_spec hm).length_le
        rw [List.length_drop] at hlength
        rw [List.length_cons]
        omega
      rw [if_neg, ih hm, Option.map_some]
      rw [List.isPrefixOf_iff_prefix] at hpre ⊢
      intro hlong
      exact hpre (List.prefix_of_prefix_length_le hlong (List.prefix_append (c :: text) more) hfits)

/-- A character is found behind a text that does not have it. -/
theorem find_char {c : Char} {front : List Char} (hfront : c ∉ front) (back : List Char) :
    find [c] (front ++ c :: back) = some front.length := by
  obtain ⟨n, hn, hfind⟩ := find_append_le [c] front back
  rw [List.singleton_append] at hfind
  rcases hn.lt_or_eq with hlt | heq
  · obtain ⟨rest, hrest⟩ := find_spec hfind
    have hmem : (front ++ c :: back)[n]? = some c := by
      rw [← List.head?_drop, ← hrest]
      rfl
    rw [List.getElem?_append_left hlt] at hmem
    exact absurd (List.mem_of_getElem? hmem) hfront
  · rw [hfind, heq]

/-! ## Scanning -/

theorem identChar_of_space {c : Char} (h : isSpace c = true) : identChar c = false := by
  unfold isSpace at h
  simp only [Bool.or_eq_true, beq_iff_eq] at h
  rcases h with ((((rfl | rfl) | rfl) | rfl) | rfl) | rfl <;> decide

theorem scan_nil (before : List Char) : scan before [] = [] := by
  rw [scan]

theorem scan_code {before rest : List Char} {c : Char} (h : skipNoncode before (c :: rest) = 0) :
    scan before (c :: rest) = .code c :: scan (c :: before) rest := by
  rw [scan, if_pos h]

/-- A loop reads the whole text. -/
theorem render_scan (before text : List Char) : render (scan before text) = text := by
  induction before, text using scan.induct with
  | case1 before => rw [scan_nil]; rfl
  | case2 before c rest h ih =>
    rw [scan_code h]
    show c :: render _ = _
    rw [ih]
  | case3 before c rest h ih =>
    rw [scan, if_neg h]
    show (c :: rest).take _ ++ render _ = _
    rw [ih, List.take_append_drop]

/-- A character that starts no literal and no comment. -/
def Ordinary (c : Char) : Prop :=
  c ≠ '/' ∧ c ≠ 'R' ∧ c ≠ '"' ∧ c ≠ '\''

instance (c : Char) : Decidable (Ordinary c) :=
  inferInstanceAs (Decidable (_ ∧ _ ∧ _ ∧ _))

theorem skipNoncode_ordinary {c : Char} (hc : Ordinary c) (before rest : List Char) :
    skipNoncode before (c :: rest) = 0 := by
  obtain ⟨hslash, hraw, hstring, hchar⟩ := hc
  unfold skipNoncode
  split
  next h => exact absurd (List.cons.inj h).1 hslash
  next h => exact absurd (List.cons.inj h).1 hslash
  next h => exact absurd (List.cons.inj h).1 hraw
  next h => exact absurd (List.cons.inj h).1 hstring
  next h => exact absurd (List.cons.inj h).1 hchar
  · rfl

theorem scan_ordinary_append {text : List Char} (h : ∀ c ∈ text, Ordinary c) (before rest : List Char) :
    scan before (text ++ rest) = text.map .code ++ scan (text.reverse ++ before) rest := by
  induction text generalizing before with
  | nil => rfl
  | cons c text ih =>
    rw [List.cons_append, scan_code (skipNoncode_ordinary (h c List.mem_cons_self) before _),
      ih fun x hx => h x (List.mem_cons_of_mem c hx), List.map_cons, List.reverse_cons, List.append_assoc]
    rfl

/-- Ordinary characters are all code. -/
theorem scan_ordinary {text : List Char} (h : ∀ c ∈ text, Ordinary c) (before : List Char) :
    scan before text = text.map .code := by
  have happend := scan_ordinary_append h before []
  rwa [List.append_nil, scan_nil, List.append_nil] at happend

/-- A character of a name, or a blank by it. -/
def Plain (c : Char) : Prop :=
  identChar c = true ∨ c = ':' ∨ isSpace c = true

theorem plain_ne {c d : Char} (hc : Plain c) (hd : ¬(identChar d = true ∨ d = ':' ∨ isSpace d = true)) : c ≠ d := by
  rintro rfl
  exact hd hc

theorem skipNoncode_plain {c : Char} (hc : Plain c) {rest : List Char} (hrest : rest.head? ≠ some '"')
    (before : List Char) : skipNoncode before (c :: rest) = 0 := by
  by_cases hraw : c = 'R'
  · subst hraw
    unfold skipNoncode
    split
    next h => exact absurd (List.cons.inj h).1 (by decide)
    next h => exact absurd (List.cons.inj h).1 (by decide)
    next h =>
      rw [(List.cons.inj h).2] at hrest
      exact absurd rfl hrest
    next h => exact absurd (List.cons.inj h).1 (by decide)
    next h => exact absurd (List.cons.inj h).1 (by decide)
    · rfl
  · exact skipNoncode_ordinary ⟨plain_ne hc (by decide), hraw, plain_ne hc (by decide), plain_ne hc (by decide)⟩ _ _

/-- Names and blanks are all code. -/
theorem scan_plain {text : List Char} (htext : ∀ c ∈ text, Plain c) {rest : List Char}
    (hrest : rest.head? ≠ some '"') (before : List Char) :
    scan before (text ++ rest) = text.map .code ++ scan (text.reverse ++ before) rest := by
  induction text generalizing before with
  | nil => rfl
  | cons c text ih =>
    have hnext : (text ++ rest).head? ≠ some '"' := by
      rcases text with _ | ⟨d, text⟩
      · exact hrest
      · have hd := plain_ne (htext d (List.mem_cons_of_mem c List.mem_cons_self)) (d := '"') (by decide)
        exact fun h => hd (Option.some.inj h)
    rw [List.cons_append, scan_code (skipNoncode_plain (htext c List.mem_cons_self) hnext before),
      ih fun d hd => htext d (List.mem_cons_of_mem c hd), List.map_cons, List.reverse_cons, List.append_assoc]
    rfl

/-! ## Brackets -/

/-- Brackets of code that are balanced, with `depth` more to close. -/
def Nested (o x : Char) (depth : ℕ) : List Atom → Prop
  | [] => depth = 0
  | .skip _ :: rest => Nested o x depth rest
  | .code c :: rest =>
    if c = o then Nested o x (depth + 1) rest
    else if c = x then 0 < depth ∧ Nested o x (depth - 1) rest
    else Nested o x depth rest

theorem Nested.append {o x : Char} {d e : ℕ} {a b : List Atom} (ha : Nested o x d a) (hb : Nested o x e b) :
    Nested o x (d + e) (a ++ b) := by
  induction a generalizing d with
  | nil =>
    have hd : d = 0 := ha
    rw [hd, Nat.zero_add]
    exact hb
  | cons y a ih =>
    rcases y with c | text
    · have ha : if c = o then Nested o x (d + 1) a else if c = x then 0 < d ∧ Nested o x (d - 1) a
        else Nested o x d a := ha
      show if c = o then Nested o x (d + e + 1) (a ++ b)
        else if c = x then 0 < d + e ∧ Nested o x (d + e - 1) (a ++ b) else Nested o x (d + e) (a ++ b)
      by_cases hopen : c = o
      · rw [if_pos hopen] at ha ⊢
        rw [Nat.add_right_comm]
        exact ih ha
      · rw [if_neg hopen] at ha ⊢
        by_cases hclose : c = x
        · rw [if_pos hclose] at ha ⊢
          obtain ⟨hpos, hrest⟩ := ha
          rw [Nat.sub_add_comm hpos]
          exact ⟨Nat.add_pos_left hpos e, ih hrest⟩
        · rw [if_neg hclose] at ha ⊢
          exact ih ha
    · exact @ih d ha

theorem Nested.concat {o x : Char} {a b : List Atom} (ha : Nested o x 0 a) (hb : Nested o x 0 b) :
    Nested o x 0 (a ++ b) :=
  ha.append hb

/-- Where `depth + 1` brackets are to be closed, what is before the first that closes one is balanced. -/
theorem Nested.cut {o x : Char} (hne : x ≠ o) {depth : ℕ} {a : List Atom} (h : Nested o x (depth + 1) a) :
    ∃ inner rest, a = inner ++ .code x :: rest ∧ Nested o x 0 inner ∧ Nested o x depth rest := by
  -- a bracket that opens another takes two steps: up to the one that closes it, and on
  induction hlength : a.length using Nat.strong_induction_on generalizing a depth with
  | _ n ih =>
    subst hlength
    rcases a with _ | ⟨c | text, a⟩
    · exact absurd h (Nat.succ_ne_zero depth)
    · have h : if c = o then Nested o x (depth + 1 + 1) a
        else if c = x then 0 < depth + 1 ∧ Nested o x (depth + 1 - 1) a else Nested o x (depth + 1) a := h
      by_cases hopen : c = o
      · rw [if_pos hopen] at h
        obtain ⟨first, more, rfl, hfirst, hmore⟩ := ih a.length (by simp) h rfl
        obtain ⟨second, rest, rfl, hsecond, hrest⟩ := ih more.length (by simp; omega) hmore rfl
        refine ⟨.code c :: (first ++ .code x :: second), rest, by simp, ?_, hrest⟩
        have hclose : Nested o x 1 (.code x :: second) := by
          show if x = o then _ else if x = x then 0 < 1 ∧ Nested o x (1 - 1) second else _
          rw [if_neg hne, if_pos rfl]
          exact ⟨Nat.one_pos, hsecond⟩
        show if c = o then Nested o x (0 + 1) (first ++ .code x :: second) else _
        rw [if_pos hopen]
        exact hfirst.append hclose
      · rw [if_neg hopen] at h
        by_cases hclose : c = x
        · rw [if_pos hclose] at h
          exact ⟨[], a, by rw [hclose]; rfl, rfl, h.2⟩
        · rw [if_neg hclose] at h
          obtain ⟨inner, rest, rfl, hinner, hrest⟩ := ih a.length (by simp) h rfl
          refine ⟨.code c :: inner, rest, rfl, ?_, hrest⟩
          show if c = o then _ else if c = x then _ else Nested o x 0 inner
          rw [if_neg hopen, if_neg hclose]
          exact hinner
    · obtain ⟨inner, rest, rfl, hinner, hrest⟩ := ih a.length (by simp) (show Nested o x (depth + 1) a from h) rfl
      exact ⟨.skip text :: inner, rest, rfl, hinner, hrest⟩

/-- Where nothing is to be closed, a text in which nothing opens closes nothing. -/
theorem Nested.front {o x : Char} {a b : List Atom} (h : Nested o x 0 (a ++ b)) (ha : ∀ c, .code c ∈ a → c ≠ o) :
    Nested o x 0 b := by
  induction a with
  | nil => exact h
  | cons y a ih =>
    have hrest : ∀ c, .code c ∈ a → c ≠ o := fun c hc => ha c (List.mem_cons_of_mem y hc)
    rcases y with c | text
    · have h : if c = o then Nested o x (0 + 1) (a ++ b)
        else if c = x then 0 < 0 ∧ Nested o x (0 - 1) (a ++ b) else Nested o x 0 (a ++ b) := h
      rw [if_neg (ha c List.mem_cons_self)] at h
      by_cases hclose : c = x
      · rw [if_pos hclose] at h
        exact absurd h.1 (Nat.lt_irrefl 0)
      · rw [if_neg hclose] at h
        exact ih h hrest
    · exact ih h hrest

/-- Steps without such brackets do not change what is balanced. -/
theorem nested_append_iff {o x : Char} {depth : ℕ} {a : List Atom} (ha : ∀ c, .code c ∈ a → c ≠ o ∧ c ≠ x)
    (b : List Atom) : Nested o x depth (a ++ b) ↔ Nested o x depth b := by
  induction a with
  | nil => rfl
  | cons y a ih =>
    have hrest := ih fun c hc => ha c (List.mem_cons_of_mem y hc)
    rcases y with c | text
    · obtain ⟨hopen, hclose⟩ := ha c List.mem_cons_self
      rw [← hrest]
      show (if c = o then _ else if c = x then _ else Nested o x depth (a ++ b)) ↔ _
      rw [if_neg hopen, if_neg hclose]
    · exact hrest

/-- The end of balanced brackets is found. -/
theorem matchFrom_nested {o x : Char} {depth : ℕ} {atoms : List Atom} (h : Nested o x depth atoms) (hne : x ≠ o)
    (more : List Atom) : matchFrom o x (depth + 1) (atoms ++ .code x :: more) = some ((render atoms).length + 1) := by
  induction atoms generalizing depth with
  | nil =>
    have hdepth : depth = 0 := h
    subst hdepth
    show (if x = o then _ else if x = x then if (0 : ℤ) + 1 - 1 = 0 then some 1 else _ else _) = _
    rw [if_neg hne, if_pos rfl]
    rfl
  | cons a atoms ih =>
    rcases a with c | text
    · have h : if c = o then Nested o x (depth + 1) atoms
        else if c = x then 0 < depth ∧ Nested o x (depth - 1) atoms else Nested o x depth atoms := h
      have hstep : matchFrom o x (depth + 1) (.code c :: atoms ++ .code x :: more) =
          if c = o then (matchFrom o x (depth + 1 + 1) (atoms ++ .code x :: more)).map (1 + ·)
          else if c = x then
            if (depth : ℤ) + 1 - 1 = 0 then some 1
            else (matchFrom o x (depth + 1 - 1) (atoms ++ .code x :: more)).map (1 + ·)
          else (matchFrom o x (depth + 1) (atoms ++ .code x :: more)).map (1 + ·) := rfl
      rw [hstep]
      have hlength : (render (.code c :: atoms)).length = (render atoms).length + 1 := rfl
      by_cases hopen : c = o
      · rw [if_pos hopen] at h ⊢
        have hrest := ih h
        push_cast at hrest
        rw [hrest, Option.map_some, hlength]
        congr 1
        omega
      · rw [if_neg hopen] at h ⊢
        by_cases hclose : c = x
        · rw [if_pos hclose] at h ⊢
          obtain ⟨hpos, hnested⟩ := h
          obtain ⟨d, rfl⟩ := Nat.exists_eq_add_of_lt hpos
          have hrest := ih hnested
          have hdepth : ((0 + d + 1 : ℕ) : ℤ) + 1 - 1 = ((0 + d + 1 - 1 : ℕ) : ℤ) + 1 := by omega
          rw [if_neg (by omega), hdepth, hrest, Option.map_some, hlength]
          congr 1
          omega
        · rw [if_neg hclose] at h ⊢
          rw [ih h, Option.map_some, hlength]
          congr 1
          omega
    · show (matchFrom o x (depth + 1) (atoms ++ .code x :: more)).map (text.length + ·) = _
      have hlength : (render (.skip text :: atoms)).length = text.length + (render atoms).length :=
        List.length_append
      rw [ih h, Option.map_some, hlength]
      congr 1

/-! ## Splitting -/

/-- The depths after some steps. -/
def Depth.run (d : Depth) : List Atom → Depth
  | [] => d
  | .skip _ :: rest => d.run rest
  | .code c :: rest => (d.step c).run rest

/-- No comma is met at depth zero. -/
def Depth.Quiet (d : Depth) : List Atom → Prop
  | [] => True
  | .skip _ :: rest => d.Quiet rest
  | .code c :: rest => ¬(c = ',' ∧ d = {}) ∧ (d.step c).Quiet rest

instance decidableQuiet (d : Depth) : (atoms : List Atom) → Decidable (d.Quiet atoms)
  | [] => inferInstanceAs (Decidable True)
  | .skip _ :: rest => decidableQuiet d rest
  | .code c :: rest =>
    have := decidableQuiet (d.step c) rest
    inferInstanceAs (Decidable (¬_ ∧ _))

/-- Steps that meet no comma at depth zero go to the piece. -/
theorem splitFrom_quiet {d : Depth} {atoms : List Atom} (h : d.Quiet atoms) (piece : List Char)
    (rest : List Atom) :
    splitFrom d piece (atoms ++ rest) = splitFrom (d.run atoms) (piece ++ render atoms) rest := by
  induction atoms generalizing d piece with
  | nil =>
    show splitFrom d piece rest = splitFrom d (piece ++ []) rest
    rw [List.append_nil]
  | cons a atoms ih =>
    rcases a with c | text
    · obtain ⟨hc, hrest⟩ := h
      show (if c = ',' ∧ d = {} then _ else splitFrom (d.step c) (piece ++ [c]) (atoms ++ rest)) = _
      rw [if_neg hc, ih hrest, List.append_assoc]
      rfl
    · show splitFrom d (piece ++ text) (atoms ++ rest) = _
      rw [ih h, List.append_assoc]
      rfl

/-- Steps that meet one have a piece before the first of them. -/
theorem splitFrom_loud {d : Depth} {atoms : List Atom} (h : ¬d.Quiet atoms) (piece : List Char)
    (rest : List Atom) : ∃ first after, atoms = first ++ .code ',' :: after ∧
      splitFrom d piece (atoms ++ rest) = (piece ++ render first) :: splitFrom {} [] (after ++ rest) := by
  induction atoms generalizing d piece with
  | nil => exact absurd trivial h
  | cons a atoms ih =>
    rcases a with c | text
    · by_cases hc : c = ',' ∧ d = {}
      · obtain ⟨rfl, rfl⟩ := hc
        refine ⟨[], atoms, rfl, ?_⟩
        show (if _ then piece :: splitFrom {} [] (atoms ++ rest) else _) = (piece ++ []) :: _
        rw [if_pos ⟨rfl, rfl⟩, List.append_nil]
      · have hrest : ¬(d.step c).Quiet atoms := fun hq => h ⟨hc, hq⟩
        obtain ⟨first, after, rfl, hsplit⟩ := ih hrest (piece ++ [c])
        refine ⟨.code c :: first, after, rfl, ?_⟩
        show (if _ then _ else splitFrom (d.step c) (piece ++ [c]) (first ++ Atom.code ',' :: after ++ rest)) = _
        rw [if_neg hc, hsplit, List.append_assoc]
        rfl
    · obtain ⟨first, after, rfl, hsplit⟩ := ih h (piece ++ text)
      refine ⟨.skip text :: first, after, rfl, ?_⟩
      show splitFrom d (piece ++ text) (first ++ .code ',' :: after ++ rest) = _
      rw [hsplit, List.append_assoc]
      rfl

/-- The first piece starts with what has been read of it. -/
theorem splitFrom_head (d : Depth) (piece : List Char) (atoms : List Atom) :
    ∃ more pieces, splitFrom d piece atoms = (piece ++ more) :: pieces := by
  induction atoms generalizing d piece with
  | nil => exact ⟨[], [], by rw [List.append_nil]; rfl⟩
  | cons a atoms ih =>
    rcases a with c | text
    · by_cases hc : c = ',' ∧ d = {}
      · refine ⟨[], splitFrom d [] atoms, ?_⟩
        show (if _ then _ else _) = _
        rw [if_pos hc, List.append_nil]
      · obtain ⟨more, pieces, hsplit⟩ := ih (d.step c) (piece ++ [c])
        refine ⟨c :: more, pieces, ?_⟩
        show (if _ then _ else _) = _
        rw [if_neg hc, hsplit, List.append_assoc]
        rfl
    · obtain ⟨more, pieces, hsplit⟩ := ih d (piece ++ text)
      refine ⟨text ++ more, pieces, ?_⟩
      show splitFrom d (piece ++ text) atoms = _
      rw [hsplit, List.append_assoc]

/-- The pieces and the commas between them are the text. -/
theorem intercalate_splitFrom (d : Depth) (piece : List Char) (atoms : List Atom) :
    [','].intercalate (splitFrom d piece atoms) = piece ++ render atoms := by
  induction atoms generalizing d piece with
  | nil => simp [splitFrom, render, List.intercalate]
  | cons a atoms ih =>
    rcases a with c | text
    · by_cases hc : c = ',' ∧ d = {}
      · have hsplit : splitFrom d piece (.code c :: atoms) = piece :: splitFrom d [] atoms := if_pos hc
        obtain ⟨more, pieces, hhead⟩ := splitFrom_head d [] atoms
        have hrest := ih d []
        rw [hhead] at hrest
        rw [hsplit, hhead, List.intercalate_cons_cons, hrest, hc.1]
        simp [render, Atom.text]
      · have hsplit : splitFrom d piece (.code c :: atoms) = splitFrom (d.step c) (piece ++ [c]) atoms :=
          if_neg hc
        rw [hsplit, ih, List.append_assoc]
        rfl
    · show [','].intercalate (splitFrom d (piece ++ text) atoms) = _
      rw [ih, List.append_assoc]
      rfl

/-- The literals and comments of a text end in it, so that it is read the same between commas as by itself. -/
def Closed (text : List Char) : Prop :=
  ∀ before rest : List Char, before.head?.all (· == ',') = true → rest.head?.all (· == ',') = true →
    scan before (text ++ rest) = scan [] text ++ scan (text.reverse ++ before) rest

/-- The commas at depth zero of texts that commas join are these commas. -/
def Apart : List (List Char) → Prop
  | [] => True
  | x :: xs => Depth.Quiet {} (scan [] x) ∧ (xs ≠ [] → Depth.run {} (scan [] x) = {}) ∧ Apart xs

instance decidableApart : (xs : List (List Char)) → Decidable (Apart xs)
  | [] => inferInstanceAs (Decidable True)
  | _ :: xs =>
    have := decidableApart xs
    inferInstanceAs (Decidable (_ ∧ (xs ≠ [] → _) ∧ _))

/-- A text of ordinary characters is read by itself. -/
theorem closed_ordinary {text : List Char} (h : ∀ c ∈ text, Ordinary c) : Closed text := by
  intro before rest _ _
  rw [scan_ordinary_append h, scan_ordinary h]

theorem scan_comma (before rest : List Char) :
    scan before (',' :: rest) = .code ',' :: scan (',' :: before) rest :=
  scan_code (skipNoncode_ordinary (by decide) before rest)

theorem Closed.scan_end {text : List Char} (h : Closed text) {before : List Char}
    (hbefore : before.head?.all (· == ',') = true) : scan before text = scan [] text := by
  have hend := h before [] hbefore rfl
  rwa [List.append_nil, scan_nil, List.append_nil] at hend

theorem Closed.scan_comma {text : List Char} (h : Closed text) {before : List Char}
    (hbefore : before.head?.all (· == ',') = true) (rest : List Char) :
    scan before (text ++ ([','] ++ rest)) =
      scan [] text ++ .code ',' :: scan (',' :: (text.reverse ++ before)) rest := by
  rw [h before _ hbefore rfl]
  exact congrArg _ (Grxcc.scan_comma _ _)

/-- A text with a comma at depth zero is not the first piece. -/
theorem splitFrom_loud_ne {text : List Char} (h : ¬Depth.Quiet {} (scan [] text)) (rest : List Atom)
    (pieces : List (List Char)) : splitFrom {} [] (scan [] text ++ rest) ≠ text :: pieces := by
  obtain ⟨first, after, hatoms, hsplit⟩ := splitFrom_loud h [] rest
  intro heq
  have hhead : render first = text := (List.cons.inj (hsplit.symm.trans heq)).1
  have hlength := congrArg List.length (render_scan [] text)
  rw [hatoms, ← hhead] at hlength
  simp [render, Atom.text] at hlength

/-- Joined texts are the pieces if the commas at depth zero are those between them, and only then. -/
theorem splitFrom_iff {xs : List (List Char)} (hxs : xs ≠ []) (hclosed : ∀ x ∈ xs, Closed x) {before : List Char}
    (hbefore : before.head?.all (· == ',') = true) :
    splitFrom {} [] (scan before ([','].intercalate xs)) = xs ↔ Apart xs := by
  induction xs generalizing before with
  | nil => exact absurd rfl hxs
  | cons x xs ih =>
    have hx := hclosed x List.mem_cons_self
    have hrender : ([] : List Char) ++ Grxcc.render (scan [] x) = x := render_scan [] x
    rcases xs with _ | ⟨y, xs⟩
    · rw [List.intercalate_singleton, hx.scan_end hbefore]
      constructor
      · intro hsplit
        refine ⟨?_, fun h => absurd rfl h, trivial⟩
        by_contra hloud
        apply splitFrom_loud_ne hloud [] []
        rw [List.append_nil]
        exact hsplit
      · rintro ⟨hquiet, -⟩
        have hsplit := splitFrom_quiet hquiet [] []
        rw [List.append_nil, hrender] at hsplit
        exact hsplit
    · have htail : splitFrom {} [] (scan (',' :: (x.reverse ++ before)) ([','].intercalate (y :: xs))) = y :: xs ↔
          Apart (y :: xs) :=
        ih (List.cons_ne_nil y xs) (fun z hz => hclosed z (List.mem_cons_of_mem x hz)) rfl
      rw [List.intercalate_cons_cons, List.append_assoc, hx.scan_comma hbefore]
      by_cases hquiet : Depth.Quiet {} (scan [] x)
      · rw [splitFrom_quiet hquiet, hrender]
        by_cases hzero : Depth.run {} (scan [] x) = {}
        · rw [hzero]
          show (if _ then x :: splitFrom {} [] _ else _) = x :: y :: xs ↔ _
          rw [if_pos ⟨rfl, rfl⟩, List.cons.injEq, htail]
          exact ⟨fun h => ⟨hquiet, fun _ => hzero, h.2⟩, fun h => ⟨rfl, h.2.2⟩⟩
        · -- the comma goes to the first piece
          obtain ⟨more, pieces, hhead⟩ := splitFrom_head ((Depth.run {} (scan [] x)).step ',') (x ++ [','])
            (scan (',' :: (x.reverse ++ before)) ([','].intercalate (y :: xs)))
          have hsplit : splitFrom (Depth.run {} (scan [] x)) x
              (.code ',' :: scan (',' :: (x.reverse ++ before)) ([','].intercalate (y :: xs))) =
                (x ++ [','] ++ more) :: pieces := by
            rw [← hhead]
            exact if_neg fun h => hzero h.2
          rw [hsplit]
          constructor
          · intro heq
            have hlength := congrArg List.length (List.cons.inj heq).1
            simp at hlength
          · intro h
            exact absurd (h.2.1 (List.cons_ne_nil y xs)) hzero
      · constructor
        · intro heq
          exact absurd heq (splitFrom_loud_ne hquiet _ _)
        · intro h
          exact absurd h.1 hquiet

/-- Two pieces or more, and the commas between them, are the text. -/
theorem intercalate_splitParams {list : List Char} (h : 2 ≤ (splitParams list).length) :
    [','].intercalate (splitParams list) = list := by
  unfold splitParams at h ⊢
  dsimp only at h ⊢
  split at h
  · exact absurd h (by decide)
  · rw [if_neg ‹_›, intercalate_splitFrom, render_scan, List.nil_append]

theorem splitParams_iff {xs : List (List Char)} (hxs : 2 ≤ xs.length) (hclosed : ∀ x ∈ xs, Closed x) :
    splitParams ([','].intercalate xs) = xs ↔ Apart xs := by
  have hne : xs ≠ [] := List.ne_nil_of_length_pos (by omega)
  have hbefore : ([] : List Char).head?.all (· == ',') = true := rfl
  rw [← splitFrom_iff hne hclosed hbefore]
  unfold splitParams
  dsimp only
  constructor
  · intro h
    split at h
    · exact absurd h.symm hne
    · exact h
  · intro h
    rw [h, if_neg]
    rintro ⟨hone, -⟩
    omega

end Grxcp.Grxcc
