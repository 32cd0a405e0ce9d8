import Grxcp.Grxcc.DeviceVars

/-!
# Shared declarations

`find_shared`, `rewrite_shared` and `emit_smem_struct`: the `__shared__` declarations at the top level of a
kernel's body become members of one block, or pointers to its end, and each of them is replaced by a declaration
that binds its name.
-/

namespace Grxcp.Grxcc

/-! ## Finding shared declarations -/

def sharedWord : List Char :=
  "__shared__".toList

def externWord : List Char :=
  "extern".toList

/-- `SharedDecl`. -/
structure SharedDecl where
  decl : List Char
  name : List Char
  isExtern : Bool
  start : ℕ
  stop : ℕ

/-- What `find_shared` reports. -/
inductive SharedError where
  | unterminated
  | nested (decl : List Char)
  | nameless (decl : List Char)

/-- The text of the diagnostic. -/
def SharedError.message : SharedError → List Char
  | unterminated => "unterminated __shared__ declaration".toList
  | nested decl =>
    "__shared__ '".toList ++ decl ++
      ("' is not at the kernel body's top level; grxcc hoists static __shared__ into one per-kernel block and " ++
        "cannot do that for a declaration inside a nested scope").toList
  | nameless decl => "cannot find the name in '__shared__ ".toList ++ decl ++ "'".toList

/-- How far `extern` and the blanks behind it reach back from a position. -/
def externBefore (before : List Char) : Option ℕ :=
  let front := before.dropWhile fun c => c == ' ' || c == '\t'
  if externWord.reverse.isPrefixOf front && !(front.drop externWord.length).head?.any identChar then
    some (before.length - front.length + externWord.length)
  else none

/-- What a text has before the first place where a name is found. -/
def beforeName (name text : List Char) : List Char :=
  text.take ((find name text).getD text.length)

/-- What `find_shared` makes of a declaration: `before` is what is before its `__shared__`, `text` what is between
that and the semicolon. -/
def sharedDecl (depth : ℤ) (before text : List Char) : Except SharedError SharedDecl :=
  let decl := trim text
  let name := lastIdent (beforeInit decl)
  if depth ≠ 1 then .error (.nested decl)
  else if name = [] then .error (.nameless decl)
  else .ok
    { decl := if (externBefore before).isSome then trim (beforeName name decl) else decl
      name := name
      isExtern := (externBefore before).isSome
      start := before.length - (externBefore before).getD 0
      stop := before.length + sharedWord.length + text.length + 1 }

/-- The loop of `find_shared`, from a position on; what it makes of each declaration stands with the position of
its `__shared__`. -/
def sharedFrom (depth : ℤ) (before text : List Char) : List (ℕ × Except SharedError SharedDecl) :=
  match text with
  | [] => []
  | c :: rest =>
    let k := skipNoncode before (c :: rest)
    if k ≠ 0 then sharedFrom depth (((c :: rest).take k).reverse ++ before) ((c :: rest).drop k)
    else if c = '{' then sharedFrom (depth + 1) (c :: before) rest
    else if c = '}' then sharedFrom (depth - 1) (c :: before) rest
    else if wordAt sharedWord before (c :: rest) then
      let past := sharedWord.reverse ++ before
      let behind := (c :: rest).drop sharedWord.length
      match findCodeChar ';' (scan past behind) with
      | none => [(before.length, .error .unterminated)]
      | some semi =>
        (before.length, sharedDecl depth before (behind.take semi)) ::
          sharedFrom depth ((behind.take (semi + 1)).reverse ++ past) (behind.drop (semi + 1))
    else sharedFrom depth (c :: before) rest
termination_by text.length
decreasing_by
  · simp only [List.length_drop, List.length_cons]
    omega
  · exact Nat.lt_succ_self _
  · exact Nat.lt_succ_self _
  · simp only [List.length_drop, List.length_cons]
    omega
  · exact Nat.lt_succ_self _

/-- `find_shared`: the declarations it returns. -/
def findShared (body : List Char) : List SharedDecl :=
  (sharedFrom 0 [] body).filterMap fun found => found.2.toOption

/-- The texts of what `find_shared` reports. -/
def sharedErrors (body : List Char) : List (List Char) :=
  (sharedFrom 0 [] body).filterMap fun found =>
    match found.2 with
    | .error e => some e.message
    | .ok _ => none

/-! ## Rewriting -/

/-- `Kernel::has_static_shared`. -/
def hasStaticShared (decls : List SharedDecl) : Bool :=
  decls.any fun d => !d.isExtern

/-- The declaration that binds a name to the member of the block. -/
def memberRef (smemStruct name : List Char) : List Char :=
  "auto& ".toList ++ name ++ " = ((".toList ++ smemStruct ++ "*)::grx::shared_memory<void>())->".toList ++ name ++
    ";".toList

/-- The declaration that binds a name to the memory at an offset. -/
def dynamicRef (type name offset : List Char) : List Char :=
  type ++ "* ".toList ++ name ++ " = (".toList ++ type ++ "*)((char*)::grx::shared_memory<void>()".toList ++ offset ++
    ");".toList

/-- The offset of what is behind the block. -/
def blockSize (smemStruct : List Char) : List Char :=
  " + sizeof(".toList ++ smemStruct ++ ")".toList

/-- What `rewrite_shared` writes for a declaration. -/
def replacement (smemStruct : List Char) (hasStatic : Bool) (d : SharedDecl) : List Char :=
  if d.isExtern then dynamicRef d.decl d.name (if hasStatic then blockSize smemStruct else [])
  else memberRef smemStruct d.name

/-- The loop of `rewrite_shared`. -/
def rewriteSharedFrom (body smemStruct : List Char) (hasStatic : Bool) (cursor : ℕ) : List SharedDecl → List Char
  | [] => body.drop cursor
  | d :: decls =>
    (body.drop cursor).take (d.start - cursor) ++
      (replacement smemStruct hasStatic d ++ rewriteSharedFrom body smemStruct hasStatic d.stop decls)

/-- `rewrite_shared`. -/
def rewriteShared (body : List Char) (decls : List SharedDecl) (smemStruct : List Char) (hasStatic : Bool) :
    List Char :=
  rewriteSharedFrom body smemStruct hasStatic 0 decls

/-- The line of a member. -/
def memberLine (decl : List Char) : List Char :=
  "  ".toList ++ decl ++ ";\n".toList

/-- The block with these lines. -/
def smemBlock (smemStruct lines : List Char) : List Char :=
  "struct alignas(16) ".toList ++ smemStruct ++ " \x7b\n".toList ++ lines ++ "\x7d;\n".toList

/-- `emit_smem_struct`. -/
def emitSmemStruct (smemStruct : List Char) (decls : List SharedDecl) : List Char :=
  if hasStaticShared decls then
    smemBlock smemStruct (decls.flatMap fun d => if d.isExtern then [] else memberLine d.decl)
  else []

/-! ## Bodies -/

/-- A `__shared__` declaration with what is before it: its specifiers before the word, the rest of its type, and
its declarators, up to the semicolon. -/
structure SharedVar where
  lead : List Atom
  pre : List Atom
  type : List Atom
  first : Declarator
  more : List Declarator

/-- What a declaration has between its `__shared__` and its semicolon. -/
def SharedVar.declared (d : SharedVar) : List Atom :=
  d.type ++ (d.first.atoms ++ d.more.flatMap fun x => .code ',' :: x.atoms)

/-- What a declaration has from its `__shared__` on. -/
def SharedVar.marked (d : SharedVar) : List Atom :=
  sharedWord.map .code ++ (d.declared ++ [.code ';'])

def SharedVar.atoms (d : SharedVar) : List Atom :=
  d.lead ++ (d.pre ++ d.marked)

/-- The body of a kernel, from its brace on: declarations at any depth, and what is behind the last of them. -/
structure SharedBody where
  vars : List SharedVar
  rest : List Atom

def varAtoms (vars : List SharedVar) : List Atom :=
  vars.flatMap SharedVar.atoms

def SharedBody.text (b : SharedBody) : List Char :=
  render (varAtoms b.vars ++ b.rest)

/-- `__shared__` is at no position of these steps. -/
def Unshared (before : List Char) : List Atom → List Char → Prop
  | [], _ => True
  | .skip text :: rest, behind => Unshared (text.reverse ++ before) rest behind
  | .code c :: rest, behind =>
    wordAt sharedWord before (c :: (render rest ++ behind)) = false ∧ Unshared (c :: before) rest behind

instance decidableUnshared : (before : List Char) → (atoms : List Atom) → (behind : List Char) →
    Decidable (Unshared before atoms behind)
  | _, [], _ => isTrue trivial
  | before, .skip text :: rest, behind => decidableUnshared (text.reverse ++ before) rest behind
  | before, .code c :: rest, behind =>
    have := decidableUnshared (c :: before) rest behind
    inferInstanceAs (Decidable (_ ∧ _))

/-- A declaration is read: its `__shared__` is where it is said to be, and nowhere else. -/
def SharedVar.Reads (before : List Char) (d : SharedVar) (behind : List Char) : Prop :=
  Unshared before (d.lead ++ d.pre) (render d.marked ++ behind) ∧
    wordAt sharedWord ((render (d.lead ++ d.pre)).reverse ++ before) (render d.marked ++ behind) = true ∧
    Unshared (sharedWord.reverse ++ ((render (d.lead ++ d.pre)).reverse ++ before)) (d.declared ++ [.code ';']) behind

instance (before : List Char) (d : SharedVar) (behind : List Char) : Decidable (d.Reads before behind) :=
  inferInstanceAs (Decidable (_ ∧ _ ∧ _))

def VarsRead (before : List Char) : List SharedVar → List Char → Prop
  | [], _ => True
  | d :: vars, behind =>
    d.Reads before (render (varAtoms vars) ++ behind) ∧ VarsRead ((render d.atoms).reverse ++ before) vars behind

/-- The lexer reads the steps of a body, and `__shared__` is only in its declarations. -/
def SharedBody.Reads (b : SharedBody) : Prop :=
  Sync [] (varAtoms b.vars ++ b.rest) ∧ VarsRead [] b.vars (render b.rest) ∧
    Unshared (render (varAtoms b.vars)).reverse b.rest []

/-- The braces of code that are opened and not closed. -/
def braces (atoms : List Atom) : ℤ :=
  atoms.count (.code '{') - atoms.count (.code '}')

/-- What a text has behind its first semicolon of code. -/
def behindSemi (atoms : List Atom) : List Atom :=
  (atoms.dropWhile (· ≠ .code ';')).tail

/-- A declaration where it is: what the body has before it, and the braces that the loop has counted there. -/
structure Placed where
  before : List Atom
  counted : ℤ
  var : SharedVar

/-- The declarations of a body. From a `__shared__` to the semicolon that the loop finds it counts no braces. -/
def placed (before : List Atom) (counted : ℤ) : List SharedVar → List Placed
  | [] => []
  | d :: vars =>
    ⟨before, counted + braces (d.lead ++ d.pre), d⟩ ::
      placed (before ++ d.atoms) (counted + braces (d.lead ++ d.pre) + braces (behindSemi (d.declared ++ [.code ';'])))
        vars

def SharedBody.placed (b : SharedBody) : List Placed :=
  Grxcc.placed [] 0 b.vars

/-- What the body has before the `__shared__`. -/
def Placed.front (x : Placed) : List Atom :=
  x.before ++ (x.var.lead ++ x.var.pre)

/-- The text that the loop takes for the declaration: up to the first semicolon. -/
def Placed.taken (x : Placed) : List Char :=
  render (upToSemi (x.var.declared ++ [.code ';']))

/-- What `find_shared` makes of the declaration. -/
def Placed.found (x : Placed) : ℕ × Except SharedError SharedDecl :=
  ((render x.front).length, sharedDecl x.counted (render x.front).reverse x.taken)

/-- A declaration is at the top level of the body. -/
def Placed.TopLevel (x : Placed) : Prop :=
  braces x.front = 1

/-! ## What is asked of a rewritten body -/

/-- A word of the code of these steps. -/
def HasWord (word : List Char) (atoms : List Atom) : Prop :=
  ∃ a b, atoms = a ++ (word.map .code ++ b) ∧ (∀ c, a.getLast? = some (.code c) → identChar c = false) ∧
    ∀ c, b.head? = some (.code c) → identChar c = false

/-- The declaration is that of dynamic memory. -/
def SharedVar.Extern (d : SharedVar) : Prop :=
  HasWord externWord d.pre ∨ HasWord externWord d.type

/-- There is no code but qualifiers of a type. They may stand before a declaration of a reference or a pointer. -/
def Qualifiers (atoms : List Atom) : Prop :=
  (∀ c, .code c ∈ atoms → identChar c = true ∨ isSpace c = true) ∧
    ∀ word, word ≠ [] → (∀ c ∈ word, identChar c = true) → HasWord word atoms →
      word = "const".toList ∨ word = "volatile".toList

/-- A character that is put behind a text is code, and not the end of a comment. -/
def EndsInCode (text : List Char) (c : Char) : Prop :=
  scan [] (text ++ [c]) = scan [] text ++ [.code c]

/-- The type of the elements of a dynamic array. -/
def SharedVar.elements (d : SharedVar) : List Atom :=
  d.type ++ d.first.front

/-- A declaration is recorded right: it is at the top level, it declares one name, and it is replaced up to its
semicolon, but for qualifiers `kept` before it. Of static memory the whole text behind `__shared__` is recorded; of
dynamic memory the type of its elements, in which no round bracket is open. -/
structure Placed.Recorded (x : Placed) (kept : List Atom) (r : SharedDecl) : Prop where
  topLevel : x.TopLevel
  single : x.var.more = []
  name : r.name = x.var.first.name
  replaced : ∃ own, x.var.pre = kept ++ own ∧ r.start = (render (x.before ++ (x.var.lead ++ kept))).length
  qualifiers : Qualifiers kept
  stop : r.stop = (render (x.before ++ x.var.atoms)).length
  isExtern : r.isExtern = true ↔ x.var.Extern
  member : ¬x.var.Extern → r.decl = trim (render x.var.declared) ∧ EndsInCode r.decl ';'
  elements : x.var.Extern →
    r.decl = trim (render x.var.elements) ∧ EndsInCode r.decl '*' ∧ Nested '(' ')' 0 x.var.elements

/-- A body is rewritten, with `lines` for its block. There is one outcome for each declaration: it is reported, and
its text stays, or it is recorded right and another declaration of its name stands in its place. What is not in a
declaration stays. -/
inductive Rewrites (smemStruct offset : List Char) (rest : List Atom) :
    List Placed → List (ℕ × Except SharedError SharedDecl) → List Char → List Char → Prop
  | rest : Rewrites smemStruct offset rest [] [] (render rest) []
  | reported {x : Placed} {xs : List Placed} {e : SharedError} {found : List (ℕ × Except SharedError SharedDecl)}
      {text lines : List Char} (more : Rewrites smemStruct offset rest xs found text lines) :
      Rewrites smemStruct offset rest (x :: xs) (((render x.front).length, .error e) :: found)
        (render x.var.atoms ++ text) lines
  | member {x : Placed} {xs : List Placed} {r : SharedDecl} {kept : List Atom}
      {found : List (ℕ × Except SharedError SharedDecl)} {text lines : List Char} (recorded : x.Recorded kept r)
      (static : ¬x.var.Extern) (more : Rewrites smemStruct offset rest xs found text lines) :
      Rewrites smemStruct offset rest (x :: xs) (((render x.front).length, .ok r) :: found)
        (render (x.var.lead ++ kept) ++ (memberRef smemStruct x.var.first.name ++ text))
        (memberLine (trim (render x.var.declared)) ++ lines)
  | elements {x : Placed} {xs : List Placed} {r : SharedDecl} {kept : List Atom}
      {found : List (ℕ × Except SharedError SharedDecl)} {text lines : List Char} (recorded : x.Recorded kept r)
      (dynamic : x.var.Extern) (more : Rewrites smemStruct offset rest xs found text lines) :
      Rewrites smemStruct offset rest (x :: xs) (((render x.front).length, .ok r) :: found)
        (render (x.var.lead ++ kept) ++
          (dynamicRef (trim (render x.var.elements)) x.var.first.name offset ++ text)) lines

/-- The body and the block of a kernel are written so that each declaration at the top level is replaced or
reported, no other text changes, the block has one line for each static name, and dynamic memory is behind the
block. -/
def SharedBody.Rewritten (b : SharedBody) (smemStruct : List Char) : Prop :=
  let decls := findShared b.text
  ∃ lines, Rewrites smemStruct (if lines = [] then [] else blockSize smemStruct) b.rest b.placed
      (sharedFrom 0 [] b.text) (rewriteShared b.text decls smemStruct (hasStaticShared decls)) lines ∧
    emitSmemStruct smemStruct decls = if lines = [] then [] else smemBlock smemStruct lines

/-- How far `extern` and the blanks behind it reach back from the `__shared__`. -/
def Placed.externLength (x : Placed) : ℕ :=
  (externBefore (render x.front).reverse).getD 0

/-- Where the loop counts one brace and there is an identifier before the first `[` or `=` of the text up to the
first semicolon, that brace is the only one; the declaration has one declarator and no other semicolon; the
identifier is its name; `extern` is before `__shared__` with only blanks between them, or nowhere; what is before
both are qualifiers; and the text of a member, or of the type of the elements, has no comment at its end. The type
of the elements is the text before the first place where the name is found. -/
def Placed.Treatable (x : Placed) : Prop :=
  x.counted = 1 → (∃ c ∈ beforeInit (trim x.taken), identChar c = true) →
    x.TopLevel ∧ x.var.more = [] ∧ .code ';' ∉ x.var.declared ∧
      EndsIn x.var.first.name (beforeInit (trim (render x.var.declared))) ∧
      ((externBefore (render x.front).reverse).isSome = true ↔ x.var.Extern) ∧
      (∃ kept own, x.var.pre = kept ++ own ∧ Qualifiers kept ∧ (render own).length = x.externLength) ∧
      (¬x.var.Extern → EndsInCode (trim (render x.var.declared)) ';') ∧
      (x.var.Extern →
        trim (beforeName x.var.first.name (trim (render x.var.declared))) = trim (render x.var.elements) ∧
        EndsInCode (trim (render x.var.elements)) '*' ∧ Nested '(' ')' 0 x.var.elements)

/-! ## One declaration -/

theorem externBefore_le {before : List Char} {k : ℕ} (h : externBefore before = some k) : k ≤ before.length := by
  unfold externBefore at h
  dsimp only at h
  split at h
  next hword =>
    rw [Bool.and_eq_true] at hword
    have hlength := (List.isPrefixOf_iff_prefix.mp hword.1).length_le
    have hfront := (List.dropWhile_sublist (l := before) fun c => c == ' ' || c == '\t').length_le
    rw [List.length_reverse] at hlength
    have hk := Option.some.inj h
    omega
  · exact absurd h nofun

theorem Placed.externLength_le (x : Placed) : x.externLength ≤ (render x.front).length := by
  unfold externLength
  rcases hreach : externBefore (render x.front).reverse with _ | k
  · exact Nat.zero_le _
  · have hle := externBefore_le hreach
    rwa [List.length_reverse] at hle

theorem braces_append (a b : List Atom) : braces (a ++ b) = braces a + braces b := by
  unfold braces
  rw [List.count_append, List.count_append]
  push_cast
  ring

theorem sharedWord_ordinary : ∀ c ∈ sharedWord, Ordinary c := by
  decide

/-- The loop over steps without `__shared__` counts their braces. -/
theorem sharedFrom_unshared {before : List Char} {a b : List Atom} (hsync : Sync before (a ++ b))
    (hunshared : Unshared before a (render b)) (depth : ℤ) :
    sharedFrom depth before (render (a ++ b)) =
      sharedFrom (depth + braces a) ((render a).reverse ++ before) (render b) := by
  induction a generalizing before depth with
  | nil =>
    show sharedFrom depth before (render b) = sharedFrom (depth + 0) before (render b)
    rw [add_zero]
  | cons x a ih =>
    have hreverse : (render (x :: a)).reverse ++ before = (render a).reverse ++ (x.text.reverse ++ before) := by
      rw [render_cons, List.reverse_append, List.append_assoc]
    have hbraces : braces (x :: a) = braces [x] + braces a := braces_append [x] a
    rw [hreverse, hbraces, ← add_assoc]
    rcases x with c | text
    · have hsync : Sync before (.code c :: (a ++ b)) := hsync
      obtain ⟨hcode, hrest⟩ := hsync.code
      obtain ⟨hword, hunshared⟩ := hunshared
      rw [← render_append] at hword
      show sharedFrom depth before (c :: render (a ++ b)) = _
      rw [sharedFrom]
      dsimp only
      rw [if_neg (not_not.mpr hcode), hword, if_neg Bool.false_ne_true]
      by_cases hopen : c = '{'
      · subst hopen
        rw [if_pos rfl]
        exact ih hrest hunshared _
      · rw [if_neg hopen]
        by_cases hclose : c = '}'
        · subst hclose
          rw [if_pos rfl]
          exact ih hrest hunshared _
        · have hnone : braces [.code c] = 0 := by
            unfold braces
            rw [List.count_singleton, List.count_singleton]
            simp [hopen, hclose]
          rw [if_neg hclose, hnone, add_zero]
          exact ih hrest hunshared _
    · have hsync : Sync before (.skip text :: (a ++ b)) := hsync
      obtain ⟨hrest, c, more, hwhole, hskip, htake, hdrop⟩ := hsync.skip
      have hnone : braces [.skip text] = 0 := rfl
      show sharedFrom depth before (text ++ render (a ++ b)) = _
      rw [hwhole, sharedFrom]
      dsimp only
      rw [if_pos hskip, htake, hdrop, hnone, add_zero]
      exact ih hrest hunshared _

/-- The loop at a `__shared__`. -/
theorem sharedFrom_marked {before : List Char} {a b : List Atom}
    (hsync : Sync before (sharedWord.map .code ++ (a ++ .code ';' :: b)))
    (hword : wordAt sharedWord before (sharedWord ++ render (a ++ .code ';' :: b)) = true) (ha : .code ';' ∉ a)
    (depth : ℤ) :
    sharedFrom depth before (sharedWord ++ render (a ++ .code ';' :: b)) =
      (before.length, sharedDecl depth before (render a)) ::
        sharedFrom depth (';' :: ((render a).reverse ++ (sharedWord.reverse ++ before))) (render b) := by
  have hscan : scan (sharedWord.reverse ++ before) (render (a ++ .code ';' :: b)) = a ++ .code ';' :: b := by
    have hnext := hsync.append
    rwa [render_code] at hnext
  have hcode : skipNoncode before (sharedWord ++ render (a ++ .code ';' :: b)) = 0 :=
    skipNoncode_ordinary (by decide) before _
  have hrender : render (a ++ .code ';' :: b) = render a ++ [';'] ++ render b := by
    rw [render_append, List.append_assoc]
    rfl
  have hlength : (render a).length + 1 = (render a ++ [';']).length := by simp
  have hstep : sharedFrom depth before (sharedWord ++ render (a ++ .code ';' :: b)) =
      match findCodeChar ';' (scan (sharedWord.reverse ++ before) (render (a ++ .code ';' :: b))) with
      | none => [(before.length, .error .unterminated)]
      | some semi =>
        (before.length, sharedDecl depth before ((render (a ++ .code ';' :: b)).take semi)) ::
          sharedFrom depth (((render (a ++ .code ';' :: b)).take (semi + 1)).reverse ++ (sharedWord.reverse ++ before))
            ((render (a ++ .code ';' :: b)).drop (semi + 1)) := by
    show sharedFrom depth before ('_' :: ("_shared__".toList ++ render (a ++ .code ';' :: b))) = _
    rw [sharedFrom]
    dsimp only
    have hwhole : '_' :: ("_shared__".toList ++ render (a ++ .code ';' :: b)) =
        sharedWord ++ render (a ++ .code ';' :: b) := rfl
    rw [hwhole, if_neg (not_not.mpr hcode), if_neg (by decide), if_neg (by decide), if_pos hword, List.drop_left]
  rw [hstep, hscan, findCodeChar_append ha]
  dsimp only
  rw [hlength, hrender, List.take_left, List.drop_left, List.append_assoc, List.take_left, List.reverse_append]
  rfl

theorem Unshared.behind {before : List Char} {a b : List Atom} {behind : List Char}
    (h : Unshared before (a ++ b) behind) : Unshared ((render a).reverse ++ before) b behind := by
  induction a generalizing before with
  | nil => exact h
  | cons x a ih =>
    rw [render_cons, List.reverse_append, List.append_assoc]
    rcases x with c | text
    · exact ih h.2
    · exact ih h

/-- The semicolon that the loop finds. -/
theorem upToSemi_behindSemi {atoms : List Atom} (h : .code ';' ∈ atoms) :
    atoms = upToSemi atoms ++ .code ';' :: behindSemi atoms ∧ .code ';' ∉ upToSemi atoms := by
  obtain ⟨a, b, rfl, ha⟩ := List.eq_append_cons_of_mem h
  have hne : ∀ x ∈ a, decide (x ≠ .code ';') = true := by
    intro x hx
    rw [decide_eq_true_eq]
    rintro rfl
    exact ha hx
  have hbehind : behindSemi (a ++ .code ';' :: b) = b := by
    unfold behindSemi
    rw [List.dropWhile_append_of_pos hne, List.dropWhile_cons_of_neg (by simp), List.tail_cons]
  rw [upToSemi_append ha, hbehind]
  exact ⟨rfl, ha⟩

/-- The loop over a declaration. -/
theorem sharedFrom_var {p b : List Atom} {d : SharedVar} (hsync : Sync (render p).reverse (d.atoms ++ b))
    (hreads : d.Reads (render p).reverse (render b)) (depth : ℤ) :
    sharedFrom depth (render p).reverse (render (d.atoms ++ b)) =
      Placed.found ⟨p, depth + braces (d.lead ++ d.pre), d⟩ ::
        sharedFrom (depth + braces (d.lead ++ d.pre) + braces (behindSemi (d.declared ++ [.code ';'])))
          (render (p ++ d.atoms)).reverse (render b) := by
  obtain ⟨hfront, hword, hbehind⟩ := hreads
  obtain ⟨hsplit, hsemi⟩ := upToSemi_behindSemi (List.mem_append_right d.declared List.mem_cons_self)
  have hreverse : ∀ a b : List Atom, (render (a ++ b)).reverse = (render b).reverse ++ (render a).reverse := by
    intro a b
    rw [render_append, List.reverse_append]
  have hplace : (render (d.lead ++ d.pre)).reverse ++ (render p).reverse =
      (render (p ++ (d.lead ++ d.pre))).reverse := (hreverse _ _).symm
  -- the steps of the declaration, up to the semicolon that is found and behind it
  have hmarked : ∀ b : List Atom, d.marked ++ b = sharedWord.map .code ++
      (upToSemi (d.declared ++ [.code ';']) ++ .code ';' :: (behindSemi (d.declared ++ [.code ';']) ++ b)) := by
    intro b
    unfold SharedVar.marked
    conv_lhs => rw [hsplit]
    simp only [List.append_assoc, List.cons_append]
  have hatoms : d.atoms ++ b = d.lead ++ d.pre ++ (d.marked ++ b) := by
    unfold SharedVar.atoms
    simp only [List.append_assoc]
  rw [hatoms] at hsync ⊢
  rw [sharedFrom_unshared hsync (by rwa [render_append]), hplace]
  have hhere := hsync.append
  rw [hplace] at hhere hword hbehind
  rw [← render_append] at hword
  rw [hmarked] at hhere hword ⊢
  have hcode : ∀ a : List Atom, render (sharedWord.map .code ++ a) = sharedWord ++ render a := by
    intro a
    rw [render_append, render_code]
  rw [hcode] at hword ⊢
  rw [sharedFrom_marked hhere hword hsemi, List.length_reverse]
  refine List.cons_eq_cons.mpr ⟨rfl, ?_⟩
  -- behind the semicolon there is no `__shared__` either
  have hpast : ';' :: ((render (upToSemi (d.declared ++ [.code ';']))).reverse ++
      (sharedWord.reverse ++ (render (p ++ (d.lead ++ d.pre))).reverse)) =
        (render (sharedWord.map .code ++ (upToSemi (d.declared ++ [.code ';']) ++ [.code ';']))).reverse ++
          (render (p ++ (d.lead ++ d.pre))).reverse := by
    rw [hcode, List.reverse_append, hreverse (upToSemi _), List.append_assoc, List.append_assoc]
    rfl
  have hlast : (render (p ++ (d.lead ++ d.pre ++ d.marked))).reverse =
      (render (behindSemi (d.declared ++ [.code ';']))).reverse ++
        ((render (sharedWord.map .code ++ (upToSemi (d.declared ++ [.code ';']) ++ [.code ';']))).reverse ++
          (render (p ++ (d.lead ++ d.pre))).reverse) := by
    have hnil := hmarked []
    rw [List.append_nil, List.append_nil] at hnil
    rw [← hreverse, ← hreverse, hnil]
    simp only [List.append_assoc, List.cons_append, List.nil_append]
  have hassoc : sharedWord.map .code ++ (upToSemi (d.declared ++ [.code ';']) ++
      .code ';' :: (behindSemi (d.declared ++ [.code ';']) ++ b)) =
        sharedWord.map .code ++ (upToSemi (d.declared ++ [.code ';']) ++ [.code ';']) ++
          (behindSemi (d.declared ++ [.code ';']) ++ b) := by
    simp only [List.append_assoc, List.cons_append, List.nil_append]
  have hrest := hassoc ▸ hhere
  have hunshared : Unshared ((render (upToSemi (d.declared ++ [.code ';']) ++ [.code ';'])).reverse ++
      (sharedWord.reverse ++ (render (p ++ (d.lead ++ d.pre))).reverse)) (behindSemi (d.declared ++ [.code ';']))
        (render b) := by
    apply Unshared.behind
    rw [List.append_assoc, List.singleton_append, ← hsplit]
    exact hbehind
  have hatomsOnly : d.atoms = d.lead ++ d.pre ++ d.marked := by
    unfold SharedVar.atoms
    rw [List.append_assoc]
  rw [hpast, sharedFrom_unshared hrest.append, hatomsOnly, hlast]
  rw [hcode, List.reverse_append, List.append_assoc]
  exact hunshared

/-- The loop over the declarations of a body makes something of each of them. -/
theorem sharedFrom_placed {p rest : List Atom} {vars : List SharedVar}
    (hsync : Sync (render p).reverse (varAtoms vars ++ rest)) (hreads : VarsRead (render p).reverse vars (render rest))
    (hrest : Unshared (render (p ++ varAtoms vars)).reverse rest []) (depth : ℤ) :
    sharedFrom depth (render p).reverse (render (varAtoms vars ++ rest)) = (placed p depth vars).map Placed.found := by
  induction vars generalizing p depth with
  | nil =>
    have hall : varAtoms [] ++ rest = rest ++ [] := (List.append_nil rest).symm
    have hnil : p ++ varAtoms [] = p := List.append_nil p
    rw [hnil] at hrest
    rw [hall] at hsync ⊢
    rw [sharedFrom_unshared hsync hrest]
    show sharedFrom _ _ [] = []
    rw [sharedFrom]
  | cons d vars ih =>
    obtain ⟨hread, hreads⟩ := hreads
    have hatoms : varAtoms (d :: vars) ++ rest = d.atoms ++ (varAtoms vars ++ rest) := List.append_assoc ..
    have hreverse : (render (p ++ d.atoms)).reverse = (render d.atoms).reverse ++ (render p).reverse := by
      rw [render_append, List.reverse_append]
    rw [hatoms] at hsync ⊢
    rw [← render_append] at hread
    rw [sharedFrom_var hsync hread]
    have hnext := hsync.append
    rw [← hreverse] at hnext hreads
    rw [ih hnext hreads]
    · rfl
    · rw [List.append_assoc]
      exact hrest

theorem SharedBody.found {b : SharedBody} (h : b.Reads) : sharedFrom 0 [] b.text = b.placed.map Placed.found :=
  sharedFrom_placed (p := []) h.1 h.2.1 h.2.2 0

/-! ## Which declarations are recorded right -/

theorem sharedDecl_eq_ok {depth : ℤ} {before text : List Char} {r : SharedDecl} :
    sharedDecl depth before text = .ok r ↔
      depth = 1 ∧ lastIdent (beforeInit (trim text)) ≠ [] ∧
        r = { decl := if (externBefore before).isSome then
                trim (beforeName (lastIdent (beforeInit (trim text))) (trim text)) else trim text
              name := lastIdent (beforeInit (trim text))
              isExtern := (externBefore before).isSome
              start := before.length - (externBefore before).getD 0
              stop := before.length + sharedWord.length + text.length + 1 } := by
  unfold sharedDecl
  dsimp only
  by_cases hdepth : depth = 1
  · rw [if_neg (not_not.mpr hdepth)]
    by_cases hname : lastIdent (beforeInit (trim text)) = []
    · rw [if_pos hname]
      exact ⟨nofun, fun h => absurd hname h.2.1⟩
    · rw [if_neg hname]
      exact ⟨fun h => ⟨hdepth, hname, (Except.ok.inj h).symm⟩, fun h => congrArg Except.ok h.2.2.symm⟩
  · rw [if_pos hdepth]
    exact ⟨nofun, fun h => absurd h.1 hdepth⟩

theorem lastIdent_ne_nil {text : List Char} : lastIdent text ≠ [] ↔ ∃ c ∈ text, identChar c = true := by
  rw [ne_eq, lastIdent_eq_nil]
  push Not
  simp only [ne_eq, Bool.not_eq_false]

theorem Placed.taken_of_not_mem {x : Placed} (h : .code ';' ∉ x.var.declared) : x.taken = render x.var.declared := by
  unfold taken
  rw [upToSemi_append h]

/-- The text that the loop takes is that of the declaration where it is as long. -/
theorem Placed.not_mem_of_length {x : Placed} (h : x.taken.length = (render x.var.declared).length) :
    .code ';' ∉ x.var.declared := by
  intro hmem
  obtain ⟨a, b, hsplit, ha⟩ := List.eq_append_cons_of_mem hmem
  have htaken : x.taken = render a := by
    unfold taken
    rw [hsplit, List.append_assoc, List.cons_append, upToSemi_append ha]
  rw [htaken, hsplit, render_append, List.length_append, render_cons, List.length_append] at h
  have hone : (Atom.code ';').text.length = 1 := rfl
  omega

theorem Placed.length_whole (x : Placed) : (render (x.before ++ x.var.atoms)).length =
    (render x.front).length + sharedWord.length + (render x.var.declared).length + 1 := by
  have hwhole : x.before ++ x.var.atoms = x.front ++ (sharedWord.map .code ++ (x.var.declared ++ [.code ';'])) := by
    unfold front SharedVar.atoms SharedVar.marked
    simp only [List.append_assoc]
  have hone : (render [.code ';']).length = 1 := rfl
  rw [hwhole, render_append, render_append, render_append, render_code, List.length_append, List.length_append,
    List.length_append, hone]
  omega

theorem Placed.length_front {x : Placed} {kept own : List Atom} (h : x.var.pre = kept ++ own) :
    (render x.front).length = (render (x.before ++ (x.var.lead ++ kept))).length + (render own).length := by
  have hwhole : x.front = x.before ++ (x.var.lead ++ kept) ++ own := by
    unfold front
    rw [h]
    simp only [List.append_assoc]
  rw [hwhole, render_append, List.length_append]

/-- The declarations that are recorded right wherever they are recorded. -/
theorem Placed.recorded_iff (x : Placed) :
    (∀ r, x.found.2 = .ok r → ∃ kept, x.Recorded kept r) ↔ x.Treatable := by
  have hlength : (render x.front).reverse.length = (render x.front).length := List.length_reverse
  have hident := x.var.first.ident
  constructor
  · intro hall hcounted hname
    rw [← lastIdent_ne_nil] at hname
    obtain ⟨kept, hrec⟩ := hall _ (sharedDecl_eq_ok.mpr ⟨hcounted, hname, rfl⟩)
    obtain ⟨htop, hsingle, hnamed, ⟨own, hpre, hstart⟩, hqual, hstop, hflag, hmember, helements⟩ := hrec
    dsimp only at hnamed hstart hstop hflag hmember helements
    have hsemi : .code ';' ∉ x.var.declared := by
      apply x.not_mem_of_length
      rw [x.length_whole, hlength] at hstop
      omega
    rw [x.taken_of_not_mem hsemi] at hnamed hmember helements
    rw [hnamed] at helements
    refine ⟨htop, hsingle, hsemi, ?_, hflag, ⟨kept, own, hpre, hqual, ?_⟩, ?_, ?_⟩
    · exact (lastIdent_iff hident.1 hident.2).mp hnamed
    · have hfront := x.length_front hpre
      have hle := x.externLength_le
      unfold externLength at hle ⊢
      omega
    · intro hstatic
      have hclosed := (hmember hstatic).2
      rwa [(hmember hstatic).1] at hclosed
    · intro hdynamic
      obtain ⟨hdecl, hclosed, hnested⟩ := helements hdynamic
      rw [hdecl] at hclosed
      rw [if_pos (hflag.mpr hdynamic)] at hdecl
      exact ⟨hdecl, hclosed, hnested⟩
  · intro htreat r hr
    obtain ⟨hcounted, hname, rfl⟩ := sharedDecl_eq_ok.mp hr
    obtain ⟨htop, hsingle, hsemi, hends, hflag, ⟨kept, own, hpre, hqual, hown⟩, hmember, helements⟩ :=
      htreat hcounted (lastIdent_ne_nil.mp hname)
    have htaken := x.taken_of_not_mem hsemi
    have hnamed : lastIdent (beforeInit (trim x.taken)) = x.var.first.name := by
      rw [htaken]
      exact (lastIdent_iff hident.1 hident.2).mpr hends
    refine ⟨kept, htop, hsingle, hnamed, ⟨own, hpre, ?_⟩, hqual, ?_, hflag, ?_, ?_⟩
    · have hfront := x.length_front hpre
      unfold externLength at hown
      dsimp only
      omega
    · dsimp only
      rw [x.length_whole, hlength, htaken]
    · intro hstatic
      dsimp only
      rw [if_neg fun h => hstatic (hflag.mp h), htaken]
      exact ⟨rfl, hmember hstatic⟩
    · intro hdynamic
      obtain ⟨hdecl, hclosed, hnested⟩ := helements hdynamic
      dsimp only
      rw [if_pos (hflag.mpr hdynamic), hnamed, htaken, hdecl]
      exact ⟨rfl, hclosed, hnested⟩

/-! ## The rewritten body -/

/-- In a rewritten body each declaration that is recorded is recorded right. -/
theorem Rewrites.recorded {smemStruct offset : List Char} {rest : List Atom} {xs : List Placed}
    {found : List (ℕ × Except SharedError SharedDecl)} {text lines : List Char}
    (h : Rewrites smemStruct offset rest xs found text lines) (hfound : found = xs.map Placed.found) :
    ∀ x ∈ xs, ∀ r, x.found.2 = .ok r → ∃ kept, x.Recorded kept r := by
  induction h with
  | rest => exact fun x hx => absurd hx List.not_mem_nil
  | reported more ih =>
    obtain ⟨hhead, htail⟩ := List.cons_eq_cons.mp hfound
    intro x hx r hr
    rcases List.mem_cons.mp hx with rfl | hx
    · rw [← hhead] at hr
      exact absurd hr nofun
    · exact ih htail x hx r hr
  | member recorded static more ih =>
    obtain ⟨hhead, htail⟩ := List.cons_eq_cons.mp hfound
    intro x hx r hr
    rcases List.mem_cons.mp hx with rfl | hx
    · rw [← hhead] at hr
      exact ⟨_, Except.ok.inj hr ▸ recorded⟩
    · exact ih htail x hx r hr
  | elements recorded dynamic more ih =>
    obtain ⟨hhead, htail⟩ := List.cons_eq_cons.mp hfound
    intro x hx r hr
    rcases List.mem_cons.mp hx with rfl | hx
    · rw [← hhead] at hr
      exact ⟨_, Except.ok.inj hr ▸ recorded⟩
    · exact ih htail x hx r hr

/-- The lines of the block. -/
def memberLines (decls : List SharedDecl) : List Char :=
  decls.flatMap fun d => if d.isExtern then [] else memberLine d.decl

theorem memberLines_eq_nil {decls : List SharedDecl} : memberLines decls = [] ↔ hasStaticShared decls = false := by
  unfold memberLines hasStaticShared
  rw [List.flatMap_eq_nil_iff, List.any_eq_false]
  constructor
  · intro h d hd
    have hline := h d hd
    cases hflag : d.isExtern with
    | false =>
      rw [hflag, if_neg Bool.false_ne_true] at hline
      exact absurd hline (List.cons_ne_nil _ _)
    | true => exact nofun
  · intro h d hd
    have hflag := h d hd
    rw [Bool.not_eq_true', Bool.not_eq_false] at hflag
    exact if_pos hflag

/-- The loop of `rewrite_shared` from a position before some declarations, where each that is recorded is recorded
right. -/
theorem rewriteSharedFrom_placed (smemStruct : List Char) (hasStatic : Bool) (body : List Char) {p rest : List Atom}
    {vars : List SharedVar} (hbody : body = render (p ++ (varAtoms vars ++ rest))) {depth : ℤ}
    (hall : ∀ x ∈ placed p depth vars, ∀ r, x.found.2 = .ok r → ∃ kept, x.Recorded kept r) {cursor : ℕ}
    (hcursor : cursor ≤ (render p).length) {decls : List SharedDecl}
    (hdecls : decls = ((placed p depth vars).map Placed.found).filterMap fun found => found.2.toOption) :
    ∃ text, rewriteSharedFrom body smemStruct hasStatic cursor decls = (render p).drop cursor ++ text ∧
      Rewrites smemStruct (if hasStatic then blockSize smemStruct else []) rest (placed p depth vars)
        ((placed p depth vars).map Placed.found) text (memberLines decls) := by
  induction vars generalizing p depth cursor decls with
  | nil =>
    subst hbody hdecls
    refine ⟨render rest, ?_, .rest⟩
    show (render (p ++ rest)).drop cursor = _
    rw [render_append, List.drop_append_of_le_length hcursor]
  | cons d vars ih =>
    have hatoms : varAtoms (d :: vars) ++ rest = d.atoms ++ (varAtoms vars ++ rest) := List.append_assoc ..
    have hbody' : body = render (p ++ d.atoms ++ (varAtoms vars ++ rest)) := by
      rw [hbody, hatoms, List.append_assoc]
    have hrender : render (p ++ d.atoms) = render p ++ render d.atoms := render_append ..
    have hgrow : (render p).length ≤ (render (p ++ d.atoms)).length := by
      rw [hrender, List.length_append]
      exact Nat.le_add_right _ _
    obtain ⟨x, hx⟩ : ∃ x : Placed, x = ⟨p, depth + braces (d.lead ++ d.pre), d⟩ := ⟨_, rfl⟩
    obtain ⟨xs, hxs⟩ : ∃ xs, xs = placed (p ++ d.atoms)
        (depth + braces (d.lead ++ d.pre) + braces (behindSemi (d.declared ++ [.code ';']))) vars := ⟨_, rfl⟩
    have hplaced : placed p depth (d :: vars) = x :: xs := by
      rw [hx, hxs]
      rfl
    have hvar : x.var = d := by rw [hx]
    have hbefore : x.before = p := by rw [hx]
    rw [hplaced] at hall
    rw [hplaced, List.map_cons] at hdecls ⊢
    have hhere := hall x List.mem_cons_self
    have hmore : ∀ {cursor : ℕ}, cursor ≤ (render (p ++ d.atoms)).length → ∃ text,
        rewriteSharedFrom body smemStruct hasStatic cursor
            ((xs.map Placed.found).filterMap fun found => found.2.toOption) =
              (render (p ++ d.atoms)).drop cursor ++ text ∧
          Rewrites smemStruct (if hasStatic then blockSize smemStruct else []) rest xs (xs.map Placed.found) text
            (memberLines ((xs.map Placed.found).filterMap fun found => found.2.toOption)) := by
      intro cursor hcursor
      subst hxs
      exact ih hbody' (fun x hx => hall x (List.mem_cons_of_mem _ hx)) hcursor rfl
    rcases hout : x.found.2 with e | r
    · -- it is reported, and its text is copied with what is behind it
      obtain ⟨text, htext, hrewrites⟩ := hmore (hcursor.trans hgrow)
      have hskip : decls = (xs.map Placed.found).filterMap fun found => found.2.toOption := by
        rw [hdecls, List.filterMap_cons_none]
        rw [hout]
        rfl
      have hpair : x.found = ((render x.front).length, .error e) := Prod.ext rfl hout
      refine ⟨render x.var.atoms ++ text, ?_, ?_⟩
      · rw [hskip, htext, hrender, List.drop_append_of_le_length hcursor, hvar, List.append_assoc]
      · rw [hpair, hskip]
        exact .reported hrewrites
    · obtain ⟨kept, hrec⟩ := hhere r hout
      obtain ⟨own, hpre, hstart⟩ := hrec.replaced
      have hstop := hrec.stop
      rw [hvar, hbefore] at hstart hstop
      obtain ⟨text, htext, hrewrites⟩ := hmore hstop.le
      have hcons : decls = r :: (xs.map Placed.found).filterMap fun found => found.2.toOption := by
        rw [hdecls, List.filterMap_cons_some]
        rw [hout]
        rfl
      have hpair : x.found = ((render x.front).length, .ok r) := Prod.ext rfl hout
      -- what is copied up to the declaration, and what is behind it
      have hcopied : (body.drop cursor).take (r.start - cursor) =
          (render p).drop cursor ++ render (d.lead ++ kept) := by
        have hsplit : body = render p ++ render (d.lead ++ kept) ++
            render (own ++ (d.marked ++ (varAtoms vars ++ rest))) := by
          rw [hbody', ← render_append, ← render_append]
          unfold SharedVar.atoms
          rw [← hvar, hpre, hvar]
          simp only [List.append_assoc]
        have hle : cursor ≤ (render p ++ render (d.lead ++ kept)).length := by
          rw [List.length_append]
          exact hcursor.trans (Nat.le_add_right _ _)
        have htaken : r.start - cursor = ((render p ++ render (d.lead ++ kept)).drop cursor).length := by
          rw [hstart, List.length_drop, render_append]
        rw [hsplit, List.drop_append_of_le_length hle, htaken, List.take_left,
          List.drop_append_of_le_length hcursor]
      have hrest : rewriteSharedFrom body smemStruct hasStatic r.stop
          ((xs.map Placed.found).filterMap fun found => found.2.toOption) = text := by
        rw [htext, hstop, List.drop_length, List.nil_append]
      have hstep : rewriteSharedFrom body smemStruct hasStatic cursor decls = (render p).drop cursor ++
          (render (x.var.lead ++ kept) ++ (replacement smemStruct hasStatic r ++ text)) := by
        rw [hcons, rewriteSharedFrom, hcopied, hrest, hvar, List.append_assoc]
      refine ⟨_, hstep, ?_⟩
      rw [hpair, hcons]
      unfold replacement
      rw [hrec.name]
      by_cases hdynamic : x.var.Extern
      · have hflag := hrec.isExtern.mpr hdynamic
        have hlines : ∀ decls, memberLines (r :: decls) = memberLines decls := by
          intro decls
          unfold memberLines
          rw [List.flatMap_cons, if_pos hflag, List.nil_append]
        rw [if_pos hflag, (hrec.elements hdynamic).1, hlines]
        exact .elements hrec hdynamic hrewrites
      · have hflag : r.isExtern ≠ true := fun h => hdynamic (hrec.isExtern.mp h)
        have hlines : ∀ decls, memberLines (r :: decls) =
            memberLine (trim (render x.var.declared)) ++ memberLines decls := by
          intro decls
          unfold memberLines
          rw [List.flatMap_cons, if_neg hflag, (hrec.member hdynamic).1]
        rw [if_neg hflag, hlines]
        exact .member hrec hdynamic hrewrites

/-- The shared declarations of a kernel are rewritten right just where each that is recorded can be treated. -/
theorem shared_iff (b : SharedBody) (smemStruct : List Char) (h : b.Reads) :
    b.Rewritten smemStruct ↔ ∀ x ∈ b.placed, x.Treatable := by
  have hfound := SharedBody.found h
  constructor
  · rintro ⟨lines, hrewrites, -⟩ x hx
    exact x.recorded_iff.mp (hrewrites.recorded hfound x hx)
  · intro htreat
    have hdecls : findShared b.text = (b.placed.map Placed.found).filterMap fun found => found.2.toOption := by
      unfold findShared
      rw [hfound]
    obtain ⟨text, htext, hrewrites⟩ := rewriteSharedFrom_placed smemStruct (hasStaticShared (findShared b.text))
      b.text (p := []) rfl (fun x hx => x.recorded_iff.mpr (htreat x hx)) (Nat.zero_le _) hdecls
    have hoffset : (if hasStaticShared (findShared b.text) then blockSize smemStruct else []) =
        if memberLines (findShared b.text) = [] then [] else blockSize smemStruct := by
      cases hstatic : hasStaticShared (findShared b.text) with
      | false => rw [if_pos (memberLines_eq_nil.mpr hstatic), if_neg Bool.false_ne_true]
      | true =>
        rw [if_pos rfl, if_neg]
        rw [memberLines_eq_nil, hstatic]
        exact nofun
    refine ⟨memberLines (findShared b.text), ?_, ?_⟩
    · rw [hoffset] at hrewrites
      unfold rewriteShared
      rw [hfound, htext]
      exact hrewrites
    · unfold emitSmemStruct
      cases hstatic : hasStaticShared (findShared b.text) with
      | false => rw [if_pos (memberLines_eq_nil.mpr hstatic), if_neg Bool.false_ne_true]
      | true =>
        rw [if_pos rfl, if_neg]
        · rfl
        · rw [memberLines_eq_nil, hstatic]
          exact nofun

/-- A declarator with a name of one letter. -/
def named (front : List Atom) (c : Char) (hc : identChar c = true) : Declarator :=
  ⟨front, [c], [], List.cons_ne_nil c [], List.forall_mem_singleton.mpr hc⟩

/-- A body with one declaration of integers. -/
def intBody (more : List Declarator) : SharedBody where
  vars := [⟨[.code '{'], [], " int ".toList.map .code, named [] 'x' rfl, more⟩]
  rest := [.code '}']

theorem intBody_reads {more : List Declarator}
    (hsync : Sync [] (varAtoms (intBody more).vars ++ (intBody more).rest))
    (hreads : ∀ d ∈ (intBody more).vars, d.Reads [] ['}'])
    (hrest : Unshared (render (varAtoms (intBody more).vars)).reverse (intBody more).rest []) :
    (intBody more).Reads :=
  ⟨hsync, ⟨hreads _ List.mem_cons_self, trivial⟩, hrest⟩

theorem shared_iff_plain : (intBody []).Reads ∧ (intBody []).Rewritten "S".toList := by
  have hreads : (intBody []).Reads := by
    apply intBody_reads
    · exact (scan_ordinary (by decide) [] : scan [] "{__shared__ int x;}".toList = _)
    · decide
    · decide
  refine ⟨hreads, (shared_iff (intBody []) "S".toList hreads).mpr ?_⟩
  intro x hx
  rw [show x = ⟨[], 1, ⟨[.code '{'], [], " int ".toList.map .code, named [] 'x' rfl, []⟩⟩ from
    List.mem_singleton.mp hx]
  intro _ _
  have hnone : ∀ atoms : List Atom, .code 'e' ∉ atoms → ¬HasWord externWord atoms := by
    rintro atoms hmem ⟨a, b, rfl, -⟩
    exact hmem (List.mem_append_right a (List.mem_append_left b List.mem_cons_self))
  have hstatic : ¬(HasWord externWord [] ∨ HasWord externWord (" int ".toList.map .code)) := by
    rintro (h | h)
    · exact hnone _ (by decide) h
    · exact hnone _ (by decide) h
  refine ⟨rfl, rfl, by decide, ⟨"int ".toList, [], by decide, by decide, by decide⟩, ?_, ?_, fun _ => ?_,
    fun h => absurd h hstatic⟩
  · exact ⟨fun h => absurd h (by decide), fun h => absurd h hstatic⟩
  · refine ⟨[], [], rfl, ⟨fun c hc => absurd hc List.not_mem_nil, ?_⟩, by decide⟩
    rintro word hne - ⟨a, b, hsplit, -⟩
    have hword := (List.append_eq_nil_iff.mp (List.append_eq_nil_iff.mp hsplit.symm).2).1
    exact absurd (List.map_eq_nil_iff.mp hword) hne
  · have htrim : trim (render (" int ".toList.map .code ++ ((named [] 'x' rfl).atoms ++ []))) =
        "int x".toList := by decide
    show EndsInCode (trim _) ';'
    rw [SharedVar.declared, List.flatMap_nil, htrim]
    unfold EndsInCode
    rw [scan_ordinary (by decide), scan_ordinary (by decide), List.map_append]
    rfl

/-- Of two names that are declared in one declaration, only the last is bound, and nothing is reported. -/
theorem shared_iff_not : ¬∀ (b : SharedBody) (smemStruct : List Char), b.Reads → b.Rewritten smemStruct := by
  intro h
  have hreads : (intBody [named [.code ' '] 'y' rfl]).Reads := by
    apply intBody_reads
    · exact (scan_ordinary (by decide) [] : scan [] "{__shared__ int x, y;}".toList = _)
    · decide
    · decide
  obtain ⟨lines, hrewrites, -⟩ := h _ "S".toList hreads
  obtain ⟨kept, hrec⟩ := hrewrites.recorded (SharedBody.found hreads) _ List.mem_cons_self _ rfl
  exact absurd hrec.single (List.cons_ne_nil _ _)

end Grxcp.Grxcc
