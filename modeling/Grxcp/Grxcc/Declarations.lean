import Grxcp.Grxcc.Params

/-!
# Declarations of device code

File-scope declarations with `__device__` and `__constant__` in front, as a text that the lexer reads step
by step: variables with all their declarators, and functions.
-/

namespace Grxcp.Grxcc

/-! ## Words -/

/-- A word is at a position, and is not a part of a longer one. -/
def wordAt (word before text : List Char) : Bool :=
  word.isPrefixOf text && !before.head?.any identChar && !(text.drop word.length).head?.any identChar

/-- The words that mark a declaration for the device. -/
inductive Mark where
  | device
  | constant
deriving DecidableEq

def Mark.word : Mark → List Char
  | device => "__device__".toList
  | constant => "__constant__".toList

/-- The mark at a position. -/
def markAt (before text : List Char) : Option Mark :=
  if wordAt Mark.constant.word before text then some .constant
  else if wordAt Mark.device.word before text then some .device
  else none

theorem word_ordinary (m : Mark) : ∀ c ∈ m.word, Ordinary c := by
  rcases m with _ | _
  · decide
  · decide

theorem word_ne_nil (m : Mark) : m.word ≠ [] := by
  rcases m with _ | _
  · exact nofun
  · exact nofun

theorem wordAt_spec {word before text : List Char} (h : wordAt word before text = true) : word <+: text := by
  unfold wordAt at h
  rw [Bool.and_eq_true, Bool.and_eq_true] at h
  exact List.isPrefixOf_iff_prefix.mp h.1.1

theorem markAt_word {before text : List Char} {m : Mark} (h : markAt before text = some m) : m.word <+: text := by
  unfold markAt at h
  by_cases hconstant : wordAt Mark.constant.word before text = true
  · rw [if_pos hconstant] at h
    rw [← Option.some.inj h]
    exact wordAt_spec hconstant
  · rw [if_neg hconstant] at h
    by_cases hdevice : wordAt Mark.device.word before text = true
    · rw [if_pos hdevice] at h
      rw [← Option.some.inj h]
      exact wordAt_spec hdevice
    · rw [if_neg hdevice] at h
      exact absurd h nofun

/-! ## Reading in step -/

/-- The lexer reads a text as these steps. -/
def Sync (before : List Char) (atoms : List Atom) : Prop :=
  scan before (render atoms) = atoms

theorem render_append (a b : List Atom) : render (a ++ b) = render a ++ render b :=
  List.flatMap_append

theorem render_code (text : List Char) : render (text.map .code) = text := by
  induction text with
  | nil => rfl
  | cons c text ih => exact congrArg (c :: ·) ih

theorem Sync.code {before : List Char} {c : Char} {rest : List Atom} (h : Sync before (.code c :: rest)) :
    skipNoncode before (c :: render rest) = 0 ∧ Sync (c :: before) rest := by
  have hscan : scan before (c :: render rest) = .code c :: rest := h
  by_cases hskip : skipNoncode before (c :: render rest) = 0
  · rw [scan_code hskip] at hscan
    exact ⟨hskip, (List.cons.inj hscan).2⟩
  · rw [scan, if_neg hskip] at hscan
    have hhead := (List.cons.inj hscan).1
    cases hhead

/-- A step over what is not code. -/
theorem Sync.skip {before text : List Char} {rest : List Atom} (h : Sync before (.skip text :: rest)) :
    Sync (text.reverse ++ before) rest ∧ ∃ c more, text ++ render rest = c :: more ∧
      skipNoncode before (c :: more) ≠ 0 ∧ (c :: more).take (skipNoncode before (c :: more)) = text ∧
      (c :: more).drop (skipNoncode before (c :: more)) = render rest := by
  have hscan : scan before (text ++ render rest) = .skip text :: rest := h
  rcases hwhole : text ++ render rest with _ | ⟨c, more⟩
  · rw [hwhole, scan_nil] at hscan
    exact absurd hscan nofun
  rw [hwhole] at hscan
  by_cases hskip : skipNoncode before (c :: more) = 0
  · rw [scan_code hskip] at hscan
    exact absurd (List.cons.inj hscan).1 nofun
  rw [scan, if_neg hskip] at hscan
  obtain ⟨hhead, htail⟩ := List.cons.inj hscan
  have htake : (c :: more).take (skipNoncode before (c :: more)) = text := Atom.skip.inj hhead
  have hdrop : (c :: more).drop (skipNoncode before (c :: more)) = render rest := by
    have hsplit : text ++ (c :: more).drop (skipNoncode before (c :: more)) = text ++ render rest := by
      rw [hwhole, ← htake, List.take_append_drop]
    exact List.append_cancel_left hsplit
  rw [htake, hdrop] at htail
  exact ⟨htail, c, more, rfl, hskip, htake, hdrop⟩

/-- A step reads something. -/
theorem Sync.text_ne_nil {before : List Char} {x : Atom} {rest : List Atom} (h : Sync before (x :: rest)) :
    x.text ≠ [] := by
  rcases x with c | text
  · exact List.cons_ne_nil c []
  · obtain ⟨-, c, more, -, hskip, htake, -⟩ := h.skip
    obtain ⟨k, hk⟩ := Nat.exists_eq_succ_of_ne_zero hskip
    show text ≠ []
    rw [← htake, hk, List.take_succ_cons]
    exact List.cons_ne_nil _ _

theorem Sync.render_ne_nil {before : List Char} {x : Atom} {rest : List Atom} (h : Sync before (x :: rest)) :
    render (x :: rest) ≠ [] :=
  fun hnil => h.text_ne_nil (List.append_eq_nil_iff.mp hnil).1

theorem Sync.append {before : List Char} {a b : List Atom} (h : Sync before (a ++ b)) :
    Sync ((render a).reverse ++ before) b := by
  induction a generalizing before with
  | nil => exact h
  | cons x a ih =>
    have hrender : (render (x :: a)).reverse ++ before = (render a).reverse ++ (x.text.reverse ++ before) := by
      show (x.text ++ render a).reverse ++ before = _
      rw [List.reverse_append, List.append_assoc]
    rw [hrender]
    rcases x with c | text
    · exact ih h.code.2
    · exact ih h.skip.1

/-- Code of ordinary characters is read one by one. -/
theorem Sync.ordinary {before text : List Char} (htext : ∀ c ∈ text, Ordinary c) {a b : List Atom}
    (h : Sync before a) (ha : render a = text ++ render b) (hb : Sync (text.reverse ++ before) b) :
    a = text.map .code ++ b := by
  unfold Sync at h hb
  rw [← h, ha, scan_ordinary_append htext, hb]

/-! ## Declarations -/

/-- No mark is at a position of these steps. -/
def Silent (before : List Char) : List Atom → List Char → Prop
  | [], _ => True
  | .skip text :: rest, behind => Silent (text.reverse ++ before) rest behind
  | .code c :: rest, behind => markAt before (c :: (render rest ++ behind)) = none ∧ Silent (c :: before) rest behind

/-- A declarator: its name, and what is before and behind it. -/
structure Declarator where
  front : List Atom
  name : List Char
  behind : List Atom
  ident : name ≠ [] ∧ ∀ c ∈ name, identChar c = true

def Declarator.atoms (d : Declarator) : List Atom :=
  d.front ++ d.name.map .code ++ d.behind

/-- What is behind the marks of a declaration: the rest of the type of a variable, its declarators and a
semicolon; or a function, for the host too or not, with a body or without. -/
inductive Tail where
  | var (type : List Atom) (first : Declarator) (more : List Declarator)
  | func (both : Bool) (signature : List Atom) (body : Option (List Atom))

/-- The end of a function. -/
def bodyAtoms : Option (List Atom) → List Atom
  | none => [.code ';']
  | some body => .code '{' :: (body ++ [.code '}'])

def Tail.atoms : Tail → List Atom
  | var type first more => type ++ first.atoms ++ more.flatMap (fun d => .code ',' :: d.atoms) ++ [.code ';']
  | func _ signature body => signature ++ bodyAtoms body

/-- A declaration: what is before it, its specifiers up to the first mark, its marks with what is behind each
of them, and the rest. -/
structure Declaration where
  lead : List Atom
  pre : List Atom
  marks : List (Mark × List Atom)
  tail : Tail

def markAtoms (marks : List (Mark × List Atom)) : List Atom :=
  marks.flatMap fun m => m.1.word.map .code ++ m.2

/-- The declaration without what is before it. -/
def Declaration.own (d : Declaration) : List Atom :=
  d.pre ++ (markAtoms d.marks ++ d.tail.atoms)

def Declaration.atoms (d : Declaration) : List Atom :=
  d.lead ++ d.own

/-- The names that a declaration of a variable declares. -/
def Declaration.names (d : Declaration) : List (List Char) :=
  match d.tail with
  | .var _ first more => first.name :: more.map Declarator.name
  | .func .. => []

/-- A variable is constant if it is marked so, besides other marks or alone. -/
def Declaration.constant (d : Declaration) : Bool :=
  d.marks.any (·.1 == .constant)

/-- A function for the device only. -/
def Declaration.DeviceOnly (d : Declaration) : Prop :=
  match d.tail with
  | .var .. => False
  | .func both .. => both = false

/-- The first of the brackets and the semicolon that tell a function from a variable. -/
def firstStop : List Atom → Option Char
  | [] => none
  | .skip _ :: rest => firstStop rest
  | .code c :: rest => if c = '(' ∨ c = '{' ∨ c = ';' then some c else firstStop rest

/-- It is a round one. -/
def Loud (atoms : List Atom) : Prop :=
  firstStop atoms = some '('

instance (atoms : List Atom) : Decidable (Loud atoms) :=
  inferInstanceAs (Decidable (_ = _))

/-- Braces are balanced, and between two marks of one declaration there is no brace and no semicolon. The
parameters of a function are in round brackets; those of a function that is for the host too come before any
brace. -/
def Declaration.Shaped (d : Declaration) : Prop :=
  d.marks ≠ [] ∧ Nested '{' '}' 0 d.lead ∧ Nested '{' '}' 0 d.pre ∧ Nested '{' '}' 0 d.tail.atoms ∧
    (∀ m ∈ d.marks, ∀ c, .code c ∈ m.2 → c ≠ '{' ∧ c ≠ '}' ∧ c ≠ ';') ∧
    match d.tail with
    | .var .. => True
    | .func both signature body => .code '(' ∈ signature ∧ Nested '{' '}' 0 signature ∧
      (∀ b ∈ body, Nested '{' '}' 0 b) ∧
      if both then Loud d.tail.atoms else ∃ m ∈ d.marks, m.1 = .device

/-- Each mark is a mark where it is, and there is no other one between them. -/
def MarksRead (before : List Char) : List (Mark × List Atom) → List Char → Prop
  | [], _ => True
  | (m, gap) :: marks, behind =>
    markAt before (m.word ++ (render gap ++ (render (markAtoms marks) ++ behind))) = some m ∧
      Silent (m.word.reverse ++ before) gap (render (markAtoms marks) ++ behind) ∧
      MarksRead ((render gap).reverse ++ (m.word.reverse ++ before)) marks behind

/-- A declaration is read: its marks are where they are said to be, and nowhere else. -/
def Declaration.Reads (before : List Char) (d : Declaration) (behind : List Char) : Prop :=
  Silent before d.lead (render d.own ++ behind) ∧
    Silent ((render d.lead).reverse ++ before) d.pre (render (markAtoms d.marks ++ d.tail.atoms) ++ behind) ∧
    MarksRead ((render (d.lead ++ d.pre)).reverse ++ before) d.marks (render d.tail.atoms ++ behind) ∧
    Silent ((render (d.lead ++ d.pre ++ markAtoms d.marks)).reverse ++ before) d.tail.atoms behind

/-- A file: declarations, and what is behind the last of them. -/
structure File where
  decls : List Declaration
  rest : List Atom

def declAtoms (decls : List Declaration) : List Atom :=
  decls.flatMap Declaration.atoms

def File.atoms (f : File) : List Atom :=
  declAtoms f.decls ++ f.rest

def File.text (f : File) : List Char :=
  render f.atoms

def DeclsRead (before : List Char) : List Declaration → List Char → Prop
  | [], _ => True
  | d :: decls, behind =>
    d.Reads before (render (declAtoms decls) ++ behind) ∧ DeclsRead ((render d.atoms).reverse ++ before) decls behind

/-- The lexer reads the steps of a file, and marks are only those of its declarations. -/
def File.Reads (f : File) : Prop :=
  Sync [] f.atoms ∧ (∀ d ∈ f.decls, d.Shaped) ∧ DeclsRead [] f.decls (render f.rest) ∧
    Silent (render (declAtoms f.decls)).reverse f.rest []

end Grxcp.Grxcc
