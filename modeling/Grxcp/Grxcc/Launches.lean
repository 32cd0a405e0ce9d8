import Grxcp.Grxcc.Lexer

/-!
# Rewriting launches

`rewrite_launches`: a launch `name<<<grid, block, shared, stream>>>(args)` becomes a push of its
configuration and a call. A source is its text, step by step as the lexer reads it, with its launches; what
the rewriter has to make of it is `Source.expected`. It does so where no configuration has a `>>>` of its own
or a comma that the splitter takes for another one than it is, and no launch is among the arguments of
another (`rewrite_iff`).
-/

namespace Grxcp.Grxcc

/-! ## The rewriter -/

/-- `Diagnostic`. -/
structure Diagnostic where
  line : ℕ
  text : String

/-- `LaunchSite`. -/
structure LaunchSite where
  callee : List Char
  line : ℕ

/-- `LaunchRewrite`, whose count is that of its sites. -/
structure LaunchRewrite where
  output : List Char := []
  sites : List LaunchSite := []
  errors : List Diagnostic := []

def LaunchRewrite.put (r : LaunchRewrite) (text : List Char) : LaunchRewrite :=
  { r with output := r.output ++ text }

def LaunchRewrite.error (r : LaunchRewrite) (before : List Char) (text : String) : LaunchRewrite :=
  { r with errors := r.errors ++ [⟨lineOf before, text⟩] }

/-- The qualified name at the end of a text, and what is before it. Both, and the text, last character
first. -/
def qualified (text : List Char) : List Char × List Char :=
  if text.takeWhile identChar = [] then ([], text)
  else
    match h : text.dropWhile identChar with
    | ':' :: ':' :: more =>
      let r := qualified more
      (text.takeWhile identChar ++ "::".toList ++ r.1, r.2)
    | rest => (text.takeWhile identChar, rest)
termination_by text.length
decreasing_by
  have hle := List.length_dropWhile_le identChar text
  rw [h, List.length_cons, List.length_cons] at hle
  omega

def kPush : List Char :=
  "(::grx::shim::push(".toList

def kAsDim : List Char :=
  "::grx::shim::as_dim(".toList

def kSize : List Char :=
  "(size_t)(".toList

def kNoSize : List Char :=
  "(size_t)0".toList

def kAsStream : List Char :=
  "::grx::shim::as_stream(".toList

def kNoStream : List Char :=
  "(grxStream_t)0".toList

/-- The push of a configuration, and the name of the call. -/
def pushText (parts : List (List Char)) (callee : List Char) : List Char :=
  kPush ++ kAsDim ++ trim (parts.getD 0 []) ++ [')', ',', ' '] ++ kAsDim ++ trim (parts.getD 1 []) ++
    [')', ',', ' '] ++
    (if 2 < parts.length then kSize ++ trim (parts.getD 2 []) ++ [')'] else kNoSize) ++ [',', ' '] ++
    (if 3 < parts.length then kAsStream ++ trim (parts.getD 3 []) ++ [')'] else kNoStream) ++
    [')', ',', ' '] ++ callee

/-- The loop of `rewrite_launches`, from a position on. -/
def rewriteFrom (before text : List Char) (r : LaunchRewrite) : LaunchRewrite :=
  match text with
  | [] => r
  | c :: rest =>
    let k := skipNoncode before (c :: rest)
    if k ≠ 0 then
      rewriteFrom (((c :: rest).take k).reverse ++ before) ((c :: rest).drop k) (r.put ((c :: rest).take k))
    else if "<<<".toList.isPrefixOf (c :: rest) = false then rewriteFrom (c :: before) rest (r.put [c])
    else
      -- the name is at the end of the output, which is cut back to what is before it
      let name := qualified (r.output.rdropWhile isSpace).reverse
      if name.1 = [] then
        rewriteFrom (c :: before) rest ((r.error before "<<< with no kernel name before it").put [c])
      else
        match find ">>>".toList (rest.drop 2) with
        | none => r.error before "unterminated <<<"
        | some close =>
          let cfg := (rest.drop 2).take close
          let parts := splitParams cfg
          if parts.length < 2 ∨ 4 < parts.length then
            rewriteFrom (c :: before) rest
              ((r.error before
                ("a launch configuration takes 2 to 4 arguments, found " ++ toString parts.length)).put [c])
          else
            let behind := rest.drop (2 + close + 3)
            let call := behind.dropWhile isSpace
            if call.head? ≠ some '(' then
              rewriteFrom (c :: before) rest ((r.error before "expected an argument list after >>>").put [c])
            else
              let passed := (c :: rest).take (3 + close + 3) ++ behind.takeWhile isSpace
              match matchBracket (passed.reverse ++ before) call with
              | none => r.error before "unterminated argument list"
              | some n =>
                rewriteFrom ((call.take n).reverse ++ (passed.reverse ++ before)) (call.drop n)
                  { output := name.2.reverse ++ pushText parts name.1.reverse ++ call.take n ++ ")".toList
                    sites := r.sites ++ [⟨name.1.reverse, lineOf before⟩]
                    errors := r.errors }
termination_by text.length
decreasing_by
  all_goals simp only [List.length_drop, List.length_cons]
  · omega
  · omega
  · omega
  · omega
  · omega
  · have hle := List.length_dropWhile_le isSpace (rest.drop (2 + close + 3))
    rw [List.length_drop] at hle
    omega

/-- `rewrite_launches`. -/
def rewriteLaunches (src : List Char) : LaunchRewrite :=
  rewriteFrom [] src {}

/-! ## Sources -/

/-- A name that may be qualified. -/
inductive Qualified : List Char → Prop
  | ident {n : List Char} (hne : n ≠ []) (hn : ∀ c ∈ n, identChar c = true) : Qualified n
  | global {n : List Char} (hne : n ≠ []) (hn : ∀ c ∈ n, identChar c = true) : Qualified ("::".toList ++ n)
  | within {q n : List Char} (hq : Qualified q) (hne : n ≠ []) (hn : ∀ c ∈ n, identChar c = true) :
    Qualified (q ++ "::".toList ++ n)

/-- A launch up to its arguments: the name, the expressions of the configuration, and the blanks before `<<<`
and behind `>>>`. -/
structure Launch where
  name : List Char
  gap : List Char
  parts : List (List Char)
  gapBehind : List Char
  qualified : Qualified name
  blank : ∀ c ∈ gap, isSpace c = true
  blankBehind : ∀ c ∈ gapBehind, isSpace c = true
  count : 2 ≤ parts.length ∧ parts.length ≤ 4

/-- The text between `<<<` and `>>>`. -/
def Launch.cfg (l : Launch) : List Char :=
  [','].intercalate l.parts

/-- The launch as it is written. -/
def Launch.text (l : Launch) : List Char :=
  l.name ++ l.gap ++ "<<<".toList ++ l.cfg ++ ">>>".toList ++ l.gapBehind

/-- A source: the steps of its text, and its launches, each with the source of its arguments. -/
inductive Source where
  | done
  | step (a : Atom) (rest : Source)
  | launch (l : Launch) (args rest : Source)

/-- The text of a source. -/
def Source.render : Source → List Char
  | done => []
  | step a rest => a.text ++ rest.render
  | launch l args rest => l.text ++ '(' :: (args.render ++ ')' :: rest.render)

/-- What the source has to become: each launch a push of its configuration and a call, also among the arguments
of another, and all else as it was. -/
def Source.expected : Source → List Char
  | done => []
  | step a rest => a.text ++ rest.expected
  | launch l args rest => pushText l.parts l.name ++ '(' :: (args.expected ++ ')' :: ')' :: rest.expected)

def Source.NoLaunch : Source → Prop
  | done => True
  | step _ rest => rest.NoLaunch
  | launch .. => False

/-- A text is read by itself up to a closing bracket behind it, and its brackets are balanced. -/
def Enclosed (before text behind : List Char) : Prop :=
  ∃ atoms, Grxcc.render atoms = text ∧ Nested '(' ')' 0 atoms ∧
    scan before (text ++ ')' :: behind) = atoms ++ scan (text.reverse ++ before) (')' :: behind)

/-- A name is not a part of a longer one. -/
def Starts (before name : List Char) : Prop :=
  before.head?.any identChar = false ∧ ("::".toList <+: name ∨ ¬"::".toList <+: before)

/-- The lexer reads a source step by step as it is given, with some text behind it: `<<<` is the start of a
launch, an expression of a configuration is read by itself, and arguments are enclosed in their brackets. -/
def Source.Reads (before : List Char) : Source → List Char → Prop
  | done, _ => True
  | step (.code c) rest, behind =>
    skipNoncode before (c :: (rest.render ++ behind)) = 0 ∧ ¬"<<<".toList <+: c :: (rest.render ++ behind) ∧
      rest.Reads (c :: before) behind
  | step (.skip text) rest, behind =>
    text ≠ [] ∧ skipNoncode before (text ++ (rest.render ++ behind)) = text.length ∧
      rest.Reads (text.reverse ++ before) behind
  | launch l args rest, behind =>
    Starts before l.name ∧ (∀ x ∈ l.parts, Closed x) ∧
      Enclosed ('(' :: (l.text.reverse ++ before)) args.render (rest.render ++ behind) ∧
      args.Reads ('(' :: (l.text.reverse ++ before)) (')' :: (rest.render ++ behind)) ∧
      rest.Reads (')' :: (args.render.reverse ++ '(' :: (l.text.reverse ++ before))) behind

/-- No configuration has a `>>>` before the one that closes it, the commas of a configuration at depth zero are
those between its expressions, and no launch is among the arguments of another. -/
def Source.Good : Source → Prop
  | done => True
  | step _ rest => rest.Good
  | launch l args rest =>
    find ">>>".toList (l.cfg ++ ">>>".toList) = some l.cfg.length ∧ Apart l.parts ∧ args.NoLaunch ∧ rest.Good

/-! ## Names -/

theorem takeWhile_run {n rest : List Char} (hn : ∀ c ∈ n, identChar c = true)
    (hrest : rest.head?.any identChar = false) :
    (n ++ rest).takeWhile identChar = n ∧ (n ++ rest).dropWhile identChar = rest := by
  have hstop : rest.takeWhile identChar = [] ∧ rest.dropWhile identChar = rest := by
    rcases rest with _ | ⟨c, rest⟩
    · exact ⟨rfl, rfl⟩
    · have hc : ¬identChar c = true := by simpa using hrest
      exact ⟨List.takeWhile_cons_of_neg hc, List.dropWhile_cons_of_neg hc⟩
  rw [List.takeWhile_append_of_pos hn, List.dropWhile_append_of_pos hn, hstop.1, hstop.2, List.append_nil]
  exact ⟨rfl, rfl⟩

theorem qualified_run {n rest : List Char} (hne : n ≠ []) (hn : ∀ c ∈ n, identChar c = true)
    (hrest : rest.head?.any identChar = false) :
    Grxcc.qualified (n ++ rest) =
      if "::".toList <+: rest then
        (n ++ "::".toList ++ (Grxcc.qualified (rest.drop 2)).1, (Grxcc.qualified (rest.drop 2)).2)
      else (n, rest) := by
  obtain ⟨htake, hdrop⟩ := takeWhile_run hn hrest
  rw [Grxcc.qualified, htake, if_neg hne]
  split
  next more h =>
    rw [hdrop] at h
    subst h
    rw [if_pos ⟨more, rfl⟩]
    rfl
  next h =>
    rw [hdrop] at h ⊢
    rw [if_neg]
    rintro ⟨more, hmore⟩
    exact h more hmore.symm

/-- A name starts with two colons or with an identifier. -/
theorem Qualified.head {name : List Char} (hq : Qualified name) :
    "::".toList <+: name ∨ ∃ c rest, name = c :: rest ∧ identChar c = true := by
  induction hq with
  | @ident n hne hn =>
    obtain ⟨c, rest, rfl⟩ := List.exists_cons_of_ne_nil hne
    exact .inr ⟨c, rest, rfl, hn c List.mem_cons_self⟩
  | @global n => exact .inl ⟨n, rfl⟩
  | @within q n _ _ _ ih =>
    rcases ih with ⟨more, rfl⟩ | ⟨c, rest, rfl, hc⟩
    · exact .inl ⟨more ++ "::".toList ++ n, by simp only [List.append_assoc]⟩
    · exact .inr ⟨c, rest ++ "::".toList ++ n, rfl, hc⟩

/-- The name at the end of a text is found, and what is before it. -/
theorem qualified_eq {name before : List Char} (hq : Qualified name) (hstart : Starts before name) :
    Grxcc.qualified (name.reverse ++ before) = (name.reverse, before) := by
  have hreverse : ∀ {n : List Char}, (∀ c ∈ n, identChar c = true) → ∀ c ∈ n.reverse, identChar c = true :=
    fun hn c hc => hn c (List.mem_reverse.mp hc)
  obtain ⟨hhead, hcolons⟩ := hstart
  induction hq with
  | @ident n hne hn =>
    rw [qualified_run (by simpa using hne) (hreverse hn) hhead, if_neg]
    apply hcolons.resolve_left
    -- an identifier does not start with a colon
    rintro ⟨more, rfl⟩
    exact absurd (hn ':' (by simp)) (by decide)
  | @global n hne hn =>
    have hnone : Grxcc.qualified before = ([], before) := by
      rw [Grxcc.qualified, if_pos]
      exact (takeWhile_run (n := []) nofun hhead).1
    rw [List.reverse_append, List.append_assoc,
      qualified_run (by simpa using hne) (hreverse hn) (by rfl), if_pos ⟨before, rfl⟩]
    show (n.reverse ++ "::".toList ++ (Grxcc.qualified before).1, (Grxcc.qualified before).2) = _
    rw [hnone, List.append_nil]
    rfl
  | @within q n hq hne hn ih =>
    have hinner := ih (by
      rcases hcolons with ⟨more, hmore⟩ | h
      · rcases hq.head with hcolon | ⟨c, rest, rfl, hc⟩
        · exact .inl hcolon
        · have hsame : ':' = c := (List.cons.inj hmore).1
          subst hsame
          exact absurd hc (by decide)
      · exact .inr h)
    rw [List.reverse_append, List.reverse_append, List.append_assoc, List.append_assoc,
      qualified_run (by simpa using hne) (hreverse hn) (by rfl), if_pos ⟨q.reverse ++ before, rfl⟩]
    show (n.reverse ++ "::".toList ++ (Grxcc.qualified (q.reverse ++ before)).1,
      (Grxcc.qualified (q.reverse ++ before)).2) = _
    rw [hinner]
    rw [List.append_assoc]
    rfl

/-! ## Configurations -/

theorem rdropWhile_blank {u b : List Char} (hb : ∀ c ∈ b, isSpace c = true) :
    (u ++ b).rdropWhile isSpace = u.rdropWhile isSpace := by
  induction b using List.reverseRecOn with
  | nil => rw [List.append_nil]
  | append_singleton b c ih =>
    rw [← List.append_assoc, List.rdropWhile_concat_pos _ _ _ (hb c (by simp)), ih fun x hx => hb x (by simp [hx])]

/-- Blanks are dropped only up to a character that is none. -/
theorem rdropWhile_kept {u z : List Char} {c : Char} (hc : isSpace c = false) :
    ∃ z', (u ++ c :: z).rdropWhile isSpace = u ++ c :: z' := by
  induction z using List.reverseRecOn with
  | nil => exact ⟨[], List.rdropWhile_concat_neg _ _ _ (by simp [hc])⟩
  | append_singleton z x ih =>
    have hassoc : u ++ c :: (z ++ [x]) = u ++ c :: z ++ [x] := by simp
    rw [hassoc]
    by_cases hx : isSpace x = true
    · rw [List.rdropWhile_concat_pos _ _ _ hx]
      exact ih
    · rw [List.rdropWhile_concat_neg _ _ _ hx]
      exact ⟨z ++ [x], by simp⟩

/-- What is trimmed from a text that goes on. -/
theorem trim_append {x z : List Char} {c : Char} (hc : isSpace c = false) :
    ∃ b z', (∀ d ∈ b, isSpace d = true) ∧ trim (x ++ c :: z) = trim x ++ b ++ c :: z' := by
  rcases hrest : x.dropWhile isSpace with _ | ⟨y, rest⟩
  · have hblank := List.dropWhile_eq_nil_iff.mp hrest
    obtain ⟨z', hz'⟩ := rdropWhile_kept (u := []) (z := z) hc
    refine ⟨[], z', nofun, ?_⟩
    unfold trim
    rw [hrest, List.dropWhile_append_of_pos hblank, List.dropWhile_cons_of_neg (by simp [hc])]
    exact hz'
  · obtain ⟨z', hz'⟩ := rdropWhile_kept (u := y :: rest) (z := z) hc
    refine ⟨(y :: rest).rtakeWhile isSpace, z', fun d hd => List.mem_rtakeWhile_imp hd, ?_⟩
    unfold trim
    rw [hrest, List.rdropWhile_append_rtakeWhile, ← hz', List.dropWhile_append, hrest]
    rfl

/-- Two texts of which one goes on with a comma, or with a `>`, where the other ends. -/
def Diverges (x y : List Char) : Prop :=
  (∃ c z, (c = ',' ∨ c = '>') ∧ y = x ++ c :: z) ∨ ∃ z, x = y ++ ',' :: z

/-- They are told apart by the bracket that is put behind them. -/
theorem Diverges.not_prefix {x y : List Char} (h : Diverges x y) (X Y : List Char) :
    ¬trim x ++ ')' :: X <+: trim y ++ ')' :: Y := by
  have hhead : ∀ {b z A B : List Char} {c : Char}, (∀ d ∈ b, isSpace d = true) → (c = ',' ∨ c = '>') →
      b ++ c :: z ++ A = ')' :: B → False := by
    intro b z A B c hb hc heq
    rcases b with _ | ⟨d, b⟩
    · have hsame : c = ')' := (List.cons.inj heq).1
      rcases hc with rfl | rfl <;> exact absurd hsame (by decide)
    · have hsame : d = ')' := (List.cons.inj heq).1
      have hd := hb d List.mem_cons_self
      rw [hsame] at hd
      exact absurd hd (by decide)
  rintro ⟨more, hmore⟩
  rcases h with ⟨c, z, hc, rfl⟩ | ⟨z, rfl⟩
  · obtain ⟨b, z', hb, htrim⟩ := trim_append (x := x) (z := z) (c := c) (by rcases hc with rfl | rfl <;> rfl)
    rw [htrim, List.append_assoc, List.append_assoc, List.append_assoc, List.append_cancel_left_eq] at hmore
    apply hhead hb hc (A := ')' :: Y) (z := z')
    rw [List.append_assoc]
    exact hmore.symm
  · obtain ⟨b, z', hb, htrim⟩ := trim_append (x := y) (z := z) (c := ',') rfl
    rw [htrim, List.append_assoc, List.append_assoc, List.append_assoc, List.append_cancel_left_eq] at hmore
    apply hhead hb (.inl rfl) (A := ')' :: X ++ more) (z := z') (c := ',')
    rw [List.append_assoc]
    simpa using hmore

/-- The first pieces of two joined texts, of which the second is the first or goes on with a `>`. -/
theorem first_piece {x y : List Char} {xs ys : List (List Char)} {t : List Char}
    (hjoin : [','].intercalate (y :: ys) = [','].intercalate (x :: xs) ++ t) (ht : t = [] ∨ t.head? = some '>') :
    (x = y ∧ (xs = [] ∧ ys = [] ∨ xs ≠ [] ∧ ys ≠ [] ∧ [','].intercalate ys = [','].intercalate xs ++ t)) ∨
      Diverges x y := by
  have htail : ∀ {x : List Char} {xs : List (List Char)}, [','].intercalate (x :: xs) =
      x ++ if xs = [] then [] else ',' :: [','].intercalate xs := by
    intro x xs
    rcases xs with _ | ⟨x', xs⟩
    · rw [List.intercalate_singleton, if_pos rfl, List.append_nil]
    · rw [List.intercalate_cons_cons, if_neg (List.cons_ne_nil _ _), List.append_assoc]
      rfl
  have hcomma : t.head? ≠ some ',' := by
    rcases ht with rfl | ht
    · exact nofun
    · rw [ht]
      decide
  -- behind pieces that are the same
  have hequal : (if ys = [] then [] else ',' :: [','].intercalate ys) =
      (if xs = [] then [] else ',' :: [','].intercalate xs) ++ t →
        xs = [] ∧ ys = [] ∨ xs ≠ [] ∧ ys ≠ [] ∧ [','].intercalate ys = [','].intercalate xs ++ t := by
    intro hrest
    by_cases hxs : xs = []
    · left
      refine ⟨hxs, ?_⟩
      by_contra hys
      rw [if_neg hys, if_pos hxs] at hrest
      apply hcomma
      rw [List.nil_append] at hrest
      rw [← hrest]
      rfl
    · right
      rw [if_neg hxs] at hrest
      by_cases hys : ys = []
      · rw [if_pos hys] at hrest
        exact absurd hrest nofun
      · rw [if_neg hys] at hrest
        exact ⟨hxs, hys, (List.cons.inj hrest).2⟩
  rw [htail, htail, List.append_assoc] at hjoin
  rcases List.append_eq_append_iff.mp hjoin with ⟨a, hx, hrest⟩ | ⟨a, hy, hrest⟩
  · rcases a with _ | ⟨c, a⟩
    · rw [List.append_nil] at hx
      exact .inl ⟨hx, hequal hrest⟩
    · right
      by_cases hys : ys = []
      · rw [if_pos hys] at hrest
        exact absurd hrest nofun
      · rw [if_neg hys] at hrest
        have hc : ',' = c := (List.cons.inj hrest).1
        exact .inr ⟨a, by rw [hx, hc]⟩
  · rcases a with _ | ⟨c, a⟩
    · rw [List.append_nil] at hy
      exact .inl ⟨hy.symm, hequal hrest.symm⟩
    · right
      left
      refine ⟨c, a, ?_, hy⟩
      by_cases hxs : xs = []
      · rw [if_pos hxs, List.nil_append] at hrest
        rcases ht with rfl | ht
        · exact absurd hrest nofun
        · rw [hrest] at ht
          exact .inr (Option.some.inj ht)
      · rw [if_neg hxs] at hrest
        exact .inl (List.cons.inj hrest).1.symm

/-- The third and the fourth expression of a push, and what is behind them. -/
def pushTail (callee : List Char) : List (List Char) → List Char
  | [] => kNoSize ++ ([',', ' '] ++ (kNoStream ++ ([')', ',', ' '] ++ callee)))
  | [c] => kSize ++ (trim c ++ ')' :: ([',', ' '] ++ (kNoStream ++ ([')', ',', ' '] ++ callee))))
  | c :: d :: _ =>
    kSize ++ (trim c ++ ')' :: ([',', ' '] ++ (kAsStream ++ (trim d ++ ')' :: ([')', ',', ' '] ++ callee)))))

theorem pushText_cons (a b : List Char) {cs : List (List Char)} (hcs : cs.length ≤ 2) (callee : List Char) :
    pushText (a :: b :: cs) callee = kPush ++ (kAsDim ++ (trim a ++ ')' ::
      ([',', ' '] ++ (kAsDim ++ (trim b ++ ')' :: ([',', ' '] ++ pushTail callee cs)))))) := by
  rcases cs with _ | ⟨c, _ | ⟨d, _ | ⟨e, cs⟩⟩⟩
  · simp [pushText, pushTail]
  · simp [pushText, pushTail]
  · simp [pushText, pushTail]
  · simp only [List.length_cons] at hcs
    omega

/-- A push is known from its text, and so is the configuration. -/
theorem pushText_inj {parts exprs : List (List Char)} (hparts : 2 ≤ parts.length ∧ parts.length ≤ 4)
    (hexprs : 2 ≤ exprs.length ∧ exprs.length ≤ 4) {t : List Char} (ht : t = [] ∨ t.head? = some '>')
    (hjoin : [','].intercalate exprs = [','].intercalate parts ++ t) {callee X Y : List Char}
    (hfront : pushText parts callee ++ X <+: pushText exprs callee ++ Y) : parts = exprs := by
  rcases parts with _ | ⟨a, _ | ⟨b, cs⟩⟩
  · exact absurd hparts.1 (by decide)
  · exact absurd hparts.1 (by simp)
  rcases exprs with _ | ⟨a', _ | ⟨b', cs'⟩⟩
  · exact absurd hexprs.1 (by decide)
  · exact absurd hexprs.1 (by simp)
  have hcs : cs.length ≤ 2 := by
    have hle := hparts.2
    rw [List.length_cons, List.length_cons] at hle
    omega
  have hcs' : cs'.length ≤ 2 := by
    have hle := hexprs.2
    rw [List.length_cons, List.length_cons] at hle
    omega
  rw [pushText_cons a b hcs, pushText_cons a' b' hcs'] at hfront
  simp only [List.append_assoc, List.cons_append, List.prefix_append_right_inj] at hfront
  rcases first_piece hjoin ht with ⟨rfl, ⟨h, -⟩ | ⟨-, -, hjoin⟩⟩ | hdiv
  · exact absurd h (List.cons_ne_nil _ _)
  swap
  · exact absurd hfront (hdiv.not_prefix _ _)
  simp only [List.prefix_append_right_inj, List.cons_prefix_cons, true_and] at hfront
  rcases first_piece hjoin ht with ⟨rfl, hrest⟩ | hdiv
  swap
  · exact absurd hfront (hdiv.not_prefix _ _)
  simp only [List.prefix_append_right_inj, List.cons_prefix_cons, true_and] at hfront
  rcases hrest with ⟨rfl, rfl⟩ | ⟨hne, hne', hjoin⟩
  · rfl
  obtain ⟨c, ds, rfl⟩ := List.exists_cons_of_ne_nil hne
  obtain ⟨c', ds', rfl⟩ := List.exists_cons_of_ne_nil hne'
  have hthird : ∀ (c : List Char) (ds : List (List Char)), ∃ more,
      pushTail callee (c :: ds) = kSize ++ (trim c ++ ')' :: more) := by
    intro c ds
    rcases ds with _ | ⟨d, ds⟩
    · exact ⟨_, rfl⟩
    · exact ⟨_, rfl⟩
  rcases first_piece hjoin ht with ⟨rfl, hrest⟩ | hdiv
  swap
  · obtain ⟨more, hmore⟩ := hthird c ds
    obtain ⟨more', hmore'⟩ := hthird c' ds'
    rw [hmore, hmore'] at hfront
    simp only [List.append_assoc, List.cons_append, List.prefix_append_right_inj] at hfront
    exact absurd hfront (hdiv.not_prefix _ _)
  rcases hrest with ⟨rfl, rfl⟩ | ⟨hne, hne', hjoin⟩
  · rfl
  obtain ⟨d, es, rfl⟩ := List.exists_cons_of_ne_nil hne
  obtain ⟨d', es', rfl⟩ := List.exists_cons_of_ne_nil hne'
  have hes : es = [] := by
    rw [List.length_cons, List.length_cons] at hcs
    exact List.length_eq_zero_iff.mp (by omega)
  have hes' : es' = [] := by
    rw [List.length_cons, List.length_cons] at hcs'
    exact List.length_eq_zero_iff.mp (by omega)
  subst hes hes'
  simp only [pushTail, List.append_assoc, List.cons_append, List.prefix_append_right_inj, List.cons_prefix_cons,
    true_and, List.nil_append] at hfront
  rcases first_piece hjoin ht with ⟨rfl, -⟩ | hdiv
  · rfl
  · exact absurd hfront (hdiv.not_prefix _ _)

/-! ## What stays of the output -/

/-- A character at which the search for a name stops. -/
def Barrier (c : Char) : Prop :=
  isSpace c = false ∧ identChar c = false ∧ c ≠ ':'

/-- A name is cut off the end of a text, and is made of identifiers and colons. -/
theorem qualified_append (text : List Char) : (Grxcc.qualified text).1 ++ (Grxcc.qualified text).2 = text ∧
    ∀ c ∈ (Grxcc.qualified text).1, identChar c = true ∨ c = ':' := by
  induction text using Grxcc.qualified.induct with
  | case1 text h =>
    rw [Grxcc.qualified, if_pos h]
    exact ⟨rfl, nofun⟩
  | case2 text h more hmore ih =>
    have hrun : text = text.takeWhile identChar ++ ("::".toList ++ more) := by
      conv_lhs => rw [← List.takeWhile_append_dropWhile (p := identChar) (l := text), hmore]
      rfl
    have hq : Grxcc.qualified text =
        (text.takeWhile identChar ++ "::".toList ++ (Grxcc.qualified more).1, (Grxcc.qualified more).2) := by
      conv_lhs => rw [hrun]
      rw [qualified_run h (fun c hc => List.mem_takeWhile_imp hc) rfl, if_pos ⟨more, rfl⟩]
      rfl
    rw [hq]
    refine ⟨?_, fun c hc => ?_⟩
    · show text.takeWhile identChar ++ "::".toList ++ (Grxcc.qualified more).1 ++ (Grxcc.qualified more).2 = text
      rw [List.append_assoc, ih.1, List.append_assoc, ← hrun]
    · rcases List.mem_append.mp hc with hc | hc
      · rcases List.mem_append.mp hc with hc | hc
        · exact .inl (List.mem_takeWhile_imp hc)
        · right
          simpa using hc
      · exact ih.2 c hc
  | case3 text h hmore =>
    rw [Grxcc.qualified, if_neg h]
    split
    next more hcolons => exact absurd hcolons (hmore more)
    · exact ⟨List.takeWhile_append_dropWhile, fun c hc => .inl (List.mem_takeWhile_imp hc)⟩

/-- What ends in a barrier is not cut off with a name. -/
theorem prefix_of_cut {p output : List Char} {b : Char} (hb : Barrier b) (h : p ++ [b] <+: output) :
    p ++ [b] <+: (Grxcc.qualified (output.rdropWhile isSpace).reverse).2.reverse := by
  obtain ⟨hsplit, hname⟩ := qualified_append (output.rdropWhile isSpace).reverse
  generalize Grxcc.qualified (output.rdropWhile isSpace).reverse = name at hsplit hname ⊢
  have houtput : output = name.2.reverse ++ (name.1.reverse ++ output.rtakeWhile isSpace) := by
    conv_lhs => rw [← List.rdropWhile_append_rtakeWhile (p := isSpace) (l := output),
      ← List.reverse_reverse (output.rdropWhile isSpace), ← hsplit]
    rw [List.reverse_append, List.append_assoc]
  have hcut : b ∉ name.1.reverse ++ output.rtakeWhile isSpace := by
    rintro hmem
    rcases List.mem_append.mp hmem with hmem | hmem
    · rcases hname b (List.mem_reverse.mp hmem) with hident | hcolon
      · rw [hb.2.1] at hident
        exact absurd hident nofun
      · exact hb.2.2 hcolon
    · have hspace := List.mem_rtakeWhile_imp hmem
      rw [hb.1] at hspace
      exact absurd hspace nofun
  obtain ⟨t, ht⟩ := h
  rw [houtput, List.append_assoc] at ht
  rcases List.append_eq_append_iff.mp ht with ⟨a, hkept, hrest⟩ | ⟨a, hp, hrest⟩
  · rcases a with _ | ⟨x, a⟩
    · rw [List.nil_append] at hrest
      exact absurd (hrest ▸ List.mem_cons_self) hcut
    · have hx : b = x := (List.cons.inj hrest).1
      subst hx
      exact ⟨a, by rw [hkept, List.append_assoc]; rfl⟩
  · exact absurd (hrest ▸ List.mem_append_right a List.mem_cons_self) hcut

/-- What has been written up to a barrier stays. -/
theorem prefix_rewriteFrom (before text : List Char) (r : LaunchRewrite) {p : List Char} {b : Char}
    (hb : Barrier b) (h : p ++ [b] <+: r.output) : p ++ [b] <+: (rewriteFrom before text r).output := by
  have hput : ∀ {r : LaunchRewrite} (t : List Char), p ++ [b] <+: r.output → p ++ [b] <+: (r.put t).output :=
    fun t h => h.trans (List.prefix_append _ t)
  induction before, text, r using rewriteFrom.induct with
  | case1 before r =>
    rw [rewriteFrom]
    exact h
  | case2 before r c rest k hskip ih =>
    rw [rewriteFrom, if_pos hskip]
    exact ih (hput _ h)
  | case3 before r c rest k hskip hopen ih =>
    rw [rewriteFrom, if_neg hskip, if_pos hopen]
    exact ih (hput _ h)
  | case4 before r c rest k hskip hopen name hname ih =>
    rw [rewriteFrom, if_neg hskip, if_neg hopen]
    dsimp only
    rw [if_pos hname]
    exact ih (hput _ h)
  | case5 before r c rest k hskip hopen name hname hclose =>
    rw [rewriteFrom, if_neg hskip, if_neg hopen]
    dsimp only
    rw [if_neg hname, hclose]
    exact h
  | case6 before r c rest k hskip hopen name hname close hclose cfg parts hcount ih =>
    rw [rewriteFrom, if_neg hskip, if_neg hopen]
    dsimp only
    rw [if_neg hname, hclose]
    dsimp only
    rw [if_pos hcount]
    exact ih (hput _ h)
  | case7 before r c rest k hskip hopen name hname close hclose cfg parts hcount behind call hcall ih =>
    rw [rewriteFrom, if_neg hskip, if_neg hopen]
    dsimp only
    rw [if_neg hname, hclose]
    dsimp only
    rw [if_neg hcount, if_pos hcall]
    exact ih (hput _ h)
  | case8 before r c rest k hskip hopen name hname close hclose cfg parts hcount behind call hcall passed hmatch =>
    rw [rewriteFrom, if_neg hskip, if_neg hopen]
    dsimp only
    rw [if_neg hname, hclose]
    dsimp only
    rw [if_neg hcount, if_neg hcall, hmatch]
    exact h
  | case9 before r c rest k hskip hopen name hname close hclose cfg parts hcount behind call hcall passed n
      hmatch ih =>
    rw [rewriteFrom, if_neg hskip, if_neg hopen]
    dsimp only
    rw [if_neg hname, hclose]
    dsimp only
    rw [if_neg hcount, if_neg hcall, hmatch]
    apply ih
    rw [List.append_assoc, List.append_assoc]
    exact (prefix_of_cut hb h).trans (List.prefix_append _ _)

/-! ## Brackets -/

theorem matchBracket_enclosed {before text behind : List Char} (h : Enclosed ('(' :: before) text behind) :
    matchBracket before ('(' :: (text ++ ')' :: behind)) = some (text.length + 2) := by
  obtain ⟨atoms, hrender, hnested, hscan⟩ := h
  have hround : ∀ c : Char, c = '(' ∨ c = ')' → Ordinary c := by
    rintro c (rfl | rfl) <;> decide
  have hfirst := matchFrom_nested hnested (by decide) (scan (')' :: (text.reverse ++ '(' :: before)) behind)
  rw [hrender] at hfirst
  unfold matchBracket
  show matchFrom '(' ')' 0 (scan before ('(' :: (text ++ ')' :: behind))) = _
  rw [scan_code (skipNoncode_ordinary (hround _ (.inl rfl)) _ _), hscan,
    scan_code (skipNoncode_ordinary (hround _ (.inr rfl)) _ _)]
  show (matchFrom '(' ')' ((0 : ℕ) + 1) _).map (1 + ·) = _
  rw [hfirst, Option.map_some]
  congr 1
  omega

/-! ## Up to a launch -/

theorem rewriteFrom_code {before rest : List Char} {c : Char} (hcode : skipNoncode before (c :: rest) = 0)
    (hopen : ¬"<<<".toList <+: c :: rest) (r : LaunchRewrite) :
    rewriteFrom before (c :: rest) r = rewriteFrom (c :: before) rest (r.put [c]) := by
  rw [rewriteFrom, if_neg (not_not.mpr hcode), if_pos]
  rw [← Bool.not_eq_true, List.isPrefixOf_iff_prefix]
  exact hopen

theorem rewriteFrom_skip {before text rest : List Char} (hne : text ≠ [])
    (hskip : skipNoncode before (text ++ rest) = text.length) (r : LaunchRewrite) :
    rewriteFrom before (text ++ rest) r = rewriteFrom (text.reverse ++ before) rest (r.put text) := by
  obtain ⟨c, text', rfl⟩ := List.exists_cons_of_ne_nil hne
  have hskip' : skipNoncode before (c :: (text' ++ rest)) = (c :: text').length := hskip
  show rewriteFrom before (c :: (text' ++ rest)) r = _
  rw [rewriteFrom, hskip', if_pos (by simp)]
  show rewriteFrom (((c :: text' ++ rest).take (c :: text').length).reverse ++ before)
    ((c :: text' ++ rest).drop (c :: text').length) (r.put ((c :: text' ++ rest).take (c :: text').length)) = _
  rw [List.take_left, List.drop_left]

/-- Names and blanks are written as they are. -/
theorem rewriteFrom_plain {text : List Char} (htext : ∀ c ∈ text, Plain c) {rest : List Char}
    (hrest : rest.head? ≠ some '"') (before : List Char) (r : LaunchRewrite) :
    rewriteFrom before (text ++ rest) r = rewriteFrom (text.reverse ++ before) rest (r.put text) := by
  induction text generalizing before r with
  | nil =>
    show rewriteFrom before rest r = rewriteFrom before rest { r with output := r.output ++ [] }
    rw [List.append_nil]
  | cons c text ih =>
    have hc := htext c List.mem_cons_self
    have hnext : (text ++ rest).head? ≠ some '"' := by
      rcases text with _ | ⟨d, text⟩
      · exact hrest
      · have hd := plain_ne (htext d (List.mem_cons_of_mem c List.mem_cons_self)) (d := '"') (by decide)
        exact fun h => hd (Option.some.inj h)
    have hopen : ¬"<<<".toList <+: c :: (text ++ rest) := by
      rintro ⟨more, hmore⟩
      exact plain_ne hc (by decide) (List.cons.inj hmore).1.symm
    rw [List.cons_append, rewriteFrom_code (skipNoncode_plain hc hnext before) hopen,
      ih fun d hd => htext d (List.mem_cons_of_mem c hd)]
    unfold LaunchRewrite.put
    rw [List.append_assoc, List.reverse_cons, List.append_assoc]
    rfl

theorem Qualified.plain {name : List Char} (hq : Qualified name) : ∀ c ∈ name, Plain c := by
  induction hq with
  | ident hne hn => exact fun c hc => .inl (hn c hc)
  | global hne hn =>
    intro c hc
    rcases List.mem_append.mp hc with hc | hc
    · exact .inr (.inl (by simpa using hc))
    · exact .inl (hn c hc)
  | within hq hne hn ih =>
    intro c hc
    rcases List.mem_append.mp hc with hc | hc
    · rcases List.mem_append.mp hc with hc | hc
      · exact ih c hc
      · exact .inr (.inl (by simpa using hc))
    · exact .inl (hn c hc)

/-- A name ends in an identifier. -/
theorem Qualified.last {name : List Char} (hq : Qualified name) :
    ∃ front c, name = front ++ [c] ∧ identChar c = true := by
  have hident : ∀ {n : List Char}, n ≠ [] → (∀ c ∈ n, identChar c = true) →
      ∃ front c, n = front ++ [c] ∧ identChar c = true := by
    intro n hne hn
    obtain ⟨front, c, rfl⟩ := (List.eq_nil_or_concat n).resolve_left hne
    exact ⟨front, c, List.concat_eq_append, hn c (by simp)⟩
  induction hq with
  | ident hne hn => exact hident hne hn
  | global hne hn =>
    obtain ⟨front, c, rfl, hc⟩ := hident hne hn
    exact ⟨"::".toList ++ front, c, (List.append_assoc ..).symm, hc⟩
  | @within q n _ hne hn _ =>
    obtain ⟨front, c, rfl, hc⟩ := hident hne hn
    exact ⟨q ++ "::".toList ++ front, c, (List.append_assoc ..).symm, hc⟩

/-- What is before a launch, as it was and as it is written: the same name can stand behind it. -/
def Cut (before output : List Char) : Prop :=
  before.head? = output.reverse.head? ∧ (¬"::".toList <+: before → ¬"::".toList <+: output.reverse)

theorem Cut.append {before output : List Char} (h : Cut before output) (text : List Char) :
    Cut (text.reverse ++ before) (output ++ text) := by
  have hcolons : ∀ (c : Char) (l : List Char), "::".toList <+: c :: l ↔ c = ':' ∧ l.head? = some ':' := by
    intro c l
    constructor
    · rintro ⟨more, hmore⟩
      obtain ⟨hc, hl⟩ := List.cons.inj hmore
      exact ⟨hc.symm, by rw [← hl]; rfl⟩
    · rintro ⟨rfl, hl⟩
      obtain ⟨more, rfl⟩ := List.head?_eq_some_iff.mp hl
      exact ⟨more, rfl⟩
  induction text generalizing before output with
  | nil =>
    rw [List.append_nil]
    exact h
  | cons c text ih =>
    have hone : Cut (c :: before) (output ++ [c]) := by
      constructor
      · rw [List.reverse_append]
        rfl
      · intro hnot
        rw [List.reverse_append]
        show ¬"::".toList <+: c :: output.reverse
        rwa [hcolons, ← h.1, ← hcolons]
    have hrest := ih hone
    rw [List.append_assoc, List.singleton_append] at hrest
    rwa [List.reverse_cons, List.append_assoc]

theorem Cut.starts {before output name : List Char} (h : Cut before output) (hname : Starts before name) :
    Starts output.reverse name :=
  ⟨h.1 ▸ hname.1, hname.2.imp_right h.2⟩

/-! ## At a launch -/

section AtLaunch

variable {l : Launch} {args rest : Source} {before : List Char} {r : LaunchRewrite}

/-- The text of a launch behind its name. -/
def Launch.body (l : Launch) (call : List Char) : List Char :=
  l.cfg ++ (">>>".toList ++ (l.gapBehind ++ call))

/-- The loop comes to `<<<` with the name at the end of its output. -/
theorem rewriteFrom_name (l : Launch) (call : List Char) (before : List Char) (r : LaunchRewrite) :
    rewriteFrom before (l.text ++ call) r =
      rewriteFrom (l.gap.reverse ++ (l.name.reverse ++ before)) ("<<<".toList ++ l.body call)
        (r.put (l.name ++ l.gap)) := by
  have hplain : ∀ c ∈ l.name ++ l.gap, Plain c := by
    intro c hc
    rcases List.mem_append.mp hc with hc | hc
    · exact l.qualified.plain c hc
    · exact .inr (.inr (l.blank c hc))
  have htext : l.text ++ call = l.name ++ l.gap ++ ("<<<".toList ++ l.body call) := by
    unfold Launch.text Launch.body
    simp only [List.append_assoc]
  rw [htext, rewriteFrom_plain hplain (by exact nofun), List.reverse_append, List.append_assoc]

theorem name_found (l : Launch) (hstart : Starts r.output.reverse l.name) :
    Grxcc.qualified ((r.put (l.name ++ l.gap)).output.rdropWhile isSpace).reverse =
      (l.name.reverse, r.output.reverse) := by
  obtain ⟨front, c, hname, hc⟩ := l.qualified.last
  have hkept : (r.output ++ (l.name ++ l.gap)).rdropWhile isSpace = r.output ++ l.name := by
    have hspace : ¬isSpace c = true := by
      intro hspace
      rw [identChar_of_space hspace] at hc
      exact absurd hc nofun
    rw [← List.append_assoc, rdropWhile_blank l.blank, hname, ← List.append_assoc,
      List.rdropWhile_concat_neg _ _ _ hspace]
  show Grxcc.qualified ((r.output ++ (l.name ++ l.gap)).rdropWhile isSpace).reverse = _
  rw [hkept, List.reverse_append, qualified_eq l.qualified hstart]

/-- A name does not start with a bracket. -/
theorem name_ne_push (l : Launch) (parts : List (List Char)) (X Y : List Char) :
    l.name ++ X ≠ pushText parts l.name ++ Y := by
  have hpush : ∃ more, pushText parts l.name ++ Y = '(' :: more := by
    unfold pushText kPush
    exact ⟨_, rfl⟩
  obtain ⟨more, hmore⟩ := hpush
  rw [hmore]
  rcases l.qualified.head with ⟨n, hn⟩ | ⟨c, n, hn, hc⟩
  · rw [← hn]
    intro h
    exact absurd (List.cons.inj h).1 (by decide)
  · rw [hn]
    intro h
    rw [(List.cons.inj h).1] at hc
    exact absurd hc (by decide)

/-- A launch from `<<<` up to its arguments. -/
def Launch.config (l : Launch) : List Char :=
  "<<<".toList ++ l.cfg ++ ">>>".toList ++ l.gapBehind

theorem blanks_behind (l : Launch) (args behind : List Char) :
    (l.gapBehind ++ '(' :: args ++ behind).dropWhile isSpace = '(' :: args ++ behind ∧
      (l.gapBehind ++ '(' :: args ++ behind).takeWhile isSpace = l.gapBehind := by
  rw [List.append_assoc, List.dropWhile_append_of_pos l.blankBehind, List.takeWhile_append_of_pos l.blankBehind]
  refine ⟨List.dropWhile_cons_of_neg (by decide), ?_⟩
  rw [List.cons_append, List.takeWhile_cons_of_neg (by decide), List.append_nil]

/-- A launch whose configuration is found and split as it is meant. -/
theorem rewriteFrom_good {args behind b : List Char} (hstart : Starts r.output.reverse l.name)
    (hclose : find ">>>".toList (l.cfg ++ ">>>".toList) = some l.cfg.length) (hsplit : splitParams l.cfg = l.parts)
    (hargs : Enclosed ('(' :: (l.config.reverse ++ b)) args behind) :
    ∃ r', r'.output = r.output ++ (pushText l.parts l.name ++ '(' :: (args ++ ')' :: [')'])) ∧
      rewriteFrom b ("<<<".toList ++ l.body ('(' :: (args ++ ')' :: behind))) (r.put (l.name ++ l.gap)) =
        rewriteFrom (')' :: (args.reverse ++ '(' :: (l.config.reverse ++ b))) behind r' := by
  have hcall : '(' :: (args ++ ')' :: behind) = '(' :: args ++ ([')'] ++ behind) := rfl
  have hrest : '<' :: '<' :: l.body ('(' :: (args ++ ')' :: behind)) =
      "<<".toList ++ l.cfg ++ ">>>".toList ++ (l.gapBehind ++ '(' :: args ++ ([')'] ++ behind)) := by
    unfold Launch.body
    simp
  have hlength : ("<<".toList ++ l.cfg ++ ">>>".toList).length = 2 + l.cfg.length + 3 := by
    simp
    omega
  obtain ⟨hdropWhile, htakeWhile⟩ := blanks_behind l args ([')'] ++ behind)
  have hbehind : ('<' :: '<' :: l.body ('(' :: (args ++ ')' :: behind))).drop (2 + l.cfg.length + 3) =
      l.gapBehind ++ '(' :: args ++ ([')'] ++ behind) := by
    rw [hrest, ← hlength, List.drop_left]
  have hconfig : ('<' :: '<' :: '<' :: l.body ('(' :: (args ++ ')' :: behind))).take (3 + l.cfg.length + 3) ++
      l.gapBehind = l.config := by
    have hthree : 3 + l.cfg.length + 3 = ("<<".toList ++ l.cfg ++ ">>>".toList).length + 1 := by omega
    rw [hrest, hthree, List.take_succ_cons, List.take_left]
    unfold Launch.config
    simp
  have hfind : find ">>>".toList (l.body ('(' :: (args ++ ')' :: behind))) = some l.cfg.length := by
    unfold Launch.body
    rw [← List.append_assoc]
    exact find_append hclose _
  have hmatch := matchBracket_enclosed hargs
  have hname : l.name.reverse ≠ [] := by
    obtain ⟨front, c, hname, -⟩ := l.qualified.last
    rw [hname]
    simp
  have hcount : ¬(l.parts.length < 2 ∨ 4 < l.parts.length) := by
    have h := l.count
    omega
  have hdrop : ('<' :: '<' :: l.body ('(' :: (args ++ ')' :: behind))).drop 2 =
      l.body ('(' :: (args ++ ')' :: behind)) := rfl
  have hcfg : (l.body ('(' :: (args ++ ')' :: behind))).take l.cfg.length = l.cfg := List.take_left
  have hwhole : '(' :: args ++ ([')'] ++ behind) = '(' :: args ++ [')'] ++ behind := (List.append_assoc ..).symm
  have hlast : ('(' :: args ++ [')']).length = args.length + 2 := by simp
  refine ⟨⟨r.output ++ pushText l.parts l.name ++ ('(' :: args ++ [')']) ++ [')'],
    r.sites ++ [⟨l.name, lineOf b⟩], r.errors⟩, ?_, ?_⟩
  · simp
  · show rewriteFrom b ('<' :: '<' :: '<' :: l.body ('(' :: (args ++ ')' :: behind))) _ = _
    rw [rewriteFrom, if_neg (not_not.mpr (skipNoncode_ordinary (by decide) _ _)), if_neg (by simp)]
    dsimp only
    rw [name_found l hstart, if_neg hname, hdrop, hfind]
    dsimp only
    rw [hcfg, hsplit, if_neg hcount, hbehind, hdropWhile, if_neg (by simp), htakeWhile, hconfig]
    have hmatch' : matchBracket (l.config.reverse ++ b) ('(' :: args ++ ([')'] ++ behind)) = some (args.length + 2) :=
      hmatch
    rw [hmatch']
    dsimp only
    rw [hwhole, ← hlast, List.take_left, List.drop_left, List.reverse_reverse, List.reverse_reverse]
    congr 1
    simp

/-- A launch whose configuration is found or split otherwise than it is meant is not rewritten as it should be. -/
theorem rewriteFrom_bad {args behind b : List Char} (hstart : Starts r.output.reverse l.name)
    (hbad : ¬(find ">>>".toList (l.cfg ++ ">>>".toList) = some l.cfg.length ∧ splitParams l.cfg = l.parts))
    (X : List Char) :
    (rewriteFrom b ("<<<".toList ++ l.body ('(' :: (args ++ ')' :: behind))) (r.put (l.name ++ l.gap))).output ≠
      r.output ++ (pushText l.parts l.name ++ X) := by
  obtain ⟨n, hn, hfind⟩ := find_append_le ">>>".toList l.cfg (l.gapBehind ++ '(' :: (args ++ ')' :: behind))
  have hbody : find ">>>".toList (l.body ('(' :: (args ++ ')' :: behind))) = some n := hfind
  have hname : l.name.reverse ≠ [] := by
    obtain ⟨front, c, hname, -⟩ := l.qualified.last
    rw [hname]
    simp
  have hdrop : ('<' :: '<' :: l.body ('(' :: (args ++ ')' :: behind))).drop 2 =
      l.body ('(' :: (args ++ ')' :: behind)) := rfl
  have hcfg : (l.body ('(' :: (args ++ ')' :: behind))).take n = l.cfg.take n := List.take_append_of_le_length hn
  -- the name stays where the push should be
  have hcopied : ∀ before text r', r'.output = r.output ++ (l.name ++ l.gap) ++ ['<'] →
      (rewriteFrom before text r').output ≠ r.output ++ (pushText l.parts l.name ++ X) := by
    intro before text r' hr' heq
    obtain ⟨more, hmore⟩ := prefix_rewriteFrom before text r' (p := r.output ++ (l.name ++ l.gap)) (b := '<')
      ⟨rfl, rfl, by decide⟩ (by rw [hr'])
    rw [heq] at hmore
    simp only [List.append_assoc, List.append_cancel_left_eq] at hmore
    exact name_ne_push l l.parts _ X hmore
  have hstopped : r.output ++ (l.name ++ l.gap) ≠ r.output ++ (pushText l.parts l.name ++ X) := by
    intro heq
    rw [List.append_cancel_left_eq] at heq
    exact name_ne_push l l.parts l.gap X heq
  show (rewriteFrom b ('<' :: '<' :: '<' :: l.body ('(' :: (args ++ ')' :: behind))) _).output ≠ _
  rw [rewriteFrom, if_neg (not_not.mpr (skipNoncode_ordinary (by decide) _ _)), if_neg (by simp)]
  dsimp only
  rw [name_found l hstart, if_neg hname, hdrop, hbody]
  dsimp only
  rw [hcfg]
  by_cases hcount : (splitParams (l.cfg.take n)).length < 2 ∨ 4 < (splitParams (l.cfg.take n)).length
  · rw [if_pos hcount]
    exact hcopied _ _ _ rfl
  rw [if_neg hcount]
  split
  · exact hcopied _ _ _ rfl
  split
  · exact hstopped
  next m hmatch =>
    intro heq
    have hbarrier : Barrier ')' := ⟨rfl, rfl, by decide⟩
    -- what is pushed stays, and tells which configuration it is
    have hkept : ∀ {before text front sites errors Y}, (rewriteFrom before text
        ⟨front ++ ")".toList, sites, errors⟩).output = Y → front ++ [')'] <+: Y := by
      rintro before text front sites errors _ rfl
      exact prefix_rewriteFrom before text _ hbarrier (List.prefix_refl _)
    obtain ⟨more, hmore⟩ := hkept heq
    simp only [List.append_assoc, List.reverse_reverse, List.append_cancel_left_eq] at hmore
    have htail : l.cfg.drop n = [] ∨ (l.cfg.drop n).head? = some '>' := by
      have hthere := find_spec hfind
      rw [List.drop_append_of_le_length hn] at hthere
      rcases hrest : l.cfg.drop n with _ | ⟨c, rest⟩
      · exact .inl rfl
      · rw [hrest] at hthere
        obtain ⟨t, ht⟩ := hthere
        exact .inr (congrArg some (List.cons.inj ht).1.symm)
    have hcounts : 2 ≤ (splitParams (l.cfg.take n)).length ∧ (splitParams (l.cfg.take n)).length ≤ 4 := by omega
    have hjoin : [','].intercalate l.parts = [','].intercalate (splitParams (l.cfg.take n)) ++ l.cfg.drop n := by
      rw [intercalate_splitParams hcounts.1, List.take_append_drop]
      rfl
    have hparts := pushText_inj hcounts l.count htail hjoin ⟨_, by rw [List.append_assoc]; exact hmore⟩
    have hall : l.cfg.take n = l.cfg := by
      rw [← intercalate_splitParams hcounts.1, hparts]
      rfl
    have hlength : n = l.cfg.length := by
      have hle := congrArg List.length hall
      rw [List.length_take] at hle
      omega
    rw [hall] at hparts
    refine hbad ⟨?_, hparts⟩
    -- it is found at the same place in a shorter text
    obtain ⟨m, -, hm⟩ := find_append_le ">>>".toList l.cfg []
    rw [List.append_nil] at hm
    have hlong := find_append hm (l.gapBehind ++ '(' :: (args ++ ')' :: behind))
    rw [List.append_assoc, hfind, hlength] at hlong
    rw [hm, ← Option.some.inj hlong]

end AtLaunch

/-! ## Sources with launches -/

theorem expected_of_noLaunch {s : Source} (h : s.NoLaunch) : s.expected = s.render := by
  induction s with
  | done => rfl
  | step a rest ih => exact congrArg (a.text ++ ·) (ih h)
  | launch l args rest => exact h.elim

/-- A source with a launch is not left as it is. -/
theorem not_prefix_of_launch {s : Source} (h : ¬s.NoLaunch) (X Y : List Char) :
    ¬s.render ++ X <+: s.expected ++ Y := by
  induction s with
  | done => exact absurd trivial h
  | step a rest ih =>
    show ¬a.text ++ rest.render ++ X <+: a.text ++ rest.expected ++ Y
    rw [List.append_assoc, List.append_assoc, List.prefix_append_right_inj]
    exact ih h
  | launch l args rest =>
    rintro ⟨more, hmore⟩
    have hname : l.name ++ (l.gap ++ "<<<".toList ++ l.cfg ++ ">>>".toList ++ l.gapBehind ++
        '(' :: (args.render ++ ')' :: rest.render) ++ X ++ more) =
          pushText l.parts l.name ++ ('(' :: (args.expected ++ ')' :: ')' :: rest.expected) ++ Y) := by
      rw [← List.append_assoc (pushText _ _)]
      refine Eq.trans ?_ hmore
      show _ = l.name ++ l.gap ++ "<<<".toList ++ l.cfg ++ ">>>".toList ++ l.gapBehind ++
        '(' :: (args.render ++ ')' :: rest.render) ++ X ++ more
      simp only [List.append_assoc]
    exact name_ne_push l _ _ _ hname

theorem rewriteFrom_iff {s : Source} {before : List Char} {r : LaunchRewrite} (hs : s.Reads before [])
    (hcut : Cut before r.output) :
    (rewriteFrom before s.render r).output = r.output ++ s.expected ↔ s.Good := by
  induction s generalizing before r with
  | done =>
    show (rewriteFrom before [] r).output = r.output ++ [] ↔ True
    rw [rewriteFrom, List.append_nil]
    exact ⟨fun _ => trivial, fun _ => rfl⟩
  | step a rest ih =>
    have happend : ∀ text : List Char, (r.put text).output ++ rest.expected = r.output ++ (text ++ rest.expected) :=
      fun text => List.append_assoc ..
    rcases a with c | text
    · obtain ⟨hcode, hopen, hrest⟩ := hs
      rw [List.append_nil] at hcode hopen
      have hnext := ih (r := r.put [c]) hrest (hcut.append [c])
      rw [happend] at hnext
      show (rewriteFrom before (c :: rest.render) r).output = _ ↔ _
      rw [rewriteFrom_code hcode hopen]
      exact hnext
    · obtain ⟨hne, hskip, hrest⟩ := hs
      rw [List.append_nil] at hskip
      have hnext := ih (r := r.put text) hrest (hcut.append text)
      rw [happend] at hnext
      show (rewriteFrom before (text ++ rest.render) r).output = _ ↔ _
      rw [rewriteFrom_skip hne hskip]
      exact hnext
  | launch l args rest _ ih =>
    obtain ⟨hstart, hclosed, hargs, -, hrest⟩ := hs
    have hstart' := hcut.starts hstart
    have hbefore : l.text.reverse ++ before = l.config.reverse ++ (l.gap.reverse ++ (l.name.reverse ++ before)) := by
      unfold Launch.text Launch.config
      simp
    rw [List.append_nil, hbefore] at hargs
    rw [hbefore] at hrest
    show (rewriteFrom before (l.text ++ '(' :: (args.render ++ ')' :: rest.render)) r).output = _ ↔
      find ">>>".toList (l.cfg ++ ">>>".toList) = some l.cfg.length ∧ Apart l.parts ∧ args.NoLaunch ∧ rest.Good
    rw [rewriteFrom_name, ← splitParams_iff l.count.1 hclosed]
    by_cases hgood : find ">>>".toList (l.cfg ++ ">>>".toList) = some l.cfg.length ∧ splitParams l.cfg = l.parts
    · obtain ⟨r', houtput, hstep⟩ := rewriteFrom_good hstart' hgood.1 hgood.2 hargs
      rw [hstep]
      by_cases hplain : args.NoLaunch
      · have hcut' : Cut (')' :: (args.render.reverse ++
            '(' :: (l.config.reverse ++ (l.gap.reverse ++ (l.name.reverse ++ before))))) r'.output := by
          have hlast : r'.output.reverse = ')' :: ')' ::
              (r.output ++ (pushText l.parts l.name ++ '(' :: args.render)).reverse := by
            rw [houtput]
            simp
          unfold Cut
          rw [hlast]
          exact ⟨rfl, fun _ h => absurd (List.cons_prefix_cons.mp h).1 (by decide)⟩
        have hall : r.output ++ (Source.launch l args rest).expected = r'.output ++ rest.expected := by
          show r.output ++ (pushText l.parts l.name ++ '(' :: (args.expected ++ ')' :: ')' :: rest.expected)) = _
          rw [houtput, expected_of_noLaunch hplain]
          simp
        rw [hall, ih hrest hcut']
        exact ⟨fun h => ⟨hgood.1, hgood.2, hplain, h⟩, fun h => h.2.2.2⟩
      · constructor
        · intro heq
          -- the arguments have been copied
          have hbarrier : Barrier ')' := ⟨rfl, rfl, by decide⟩
          have hfront : r.output ++ (pushText l.parts l.name ++ '(' :: (args.render ++ [')'])) ++ [')'] <+:
              r'.output := by
            rw [houtput]
            simp
          obtain ⟨more, hmore⟩ := prefix_rewriteFrom _ _ r' hbarrier hfront
          rw [heq] at hmore
          simp only [Source.expected, List.append_assoc, List.cons_append, List.append_cancel_left_eq,
            List.cons.injEq, true_and] at hmore
          apply absurd _ (not_prefix_of_launch hplain (')' :: ')' :: more) (')' :: ')' :: rest.expected))
          refine ⟨[], ?_⟩
          rw [List.append_nil]
          exact hmore
        · intro h
          exact absurd h.2.2.1 hplain
    · constructor
      · intro heq
        exact absurd heq (rewriteFrom_bad hstart' hgood
          ('(' :: (args.expected ++ ')' :: ')' :: rest.expected)))
      · intro h
        exact absurd ⟨h.1, h.2.1⟩ hgood

/-- `k<<<grid, 256>>>(x)`, for an expression `grid`. -/
def oneLaunch (grid : List Char) : Source :=
  .launch ⟨['k'], [], [grid, [' ', '2', '5', '6']], [], .ident (by decide) (by decide), nofun, nofun, ⟨le_rfl, le_add_self⟩⟩
    (.step (.code 'x') .done) .done

theorem oneLaunch_reads {grid : List Char} (hgrid : ∀ c ∈ grid, Ordinary c) : (oneLaunch grid).Reads [] [] := by
  refine ⟨⟨rfl, .inr (by decide)⟩, ?_, ?_, ?_, trivial⟩
  · intro x hx
    apply closed_ordinary
    rcases List.mem_pair.mp hx with rfl | rfl
    · exact hgrid
    · decide
  · have hx : ∀ c ∈ ['x'], Ordinary c := by decide
    exact ⟨[.code 'x'], rfl, rfl, scan_ordinary_append hx _ _⟩
  · exact ⟨skipNoncode_ordinary (by decide) _ _, fun h => absurd (List.cons_prefix_cons.mp h).1 (by decide), trivial⟩

end Grxcp.Grxcc
