import Grxcp.Grxcc.Disassembly

/-!
# What a disassembly says

A listing as `llvm-objdump -d` prints it: functions, and in each the instructions with their operands and with
the symbol that an address operand is annotated with. `parse_disasm` reads the functions from its text.
-/

namespace Grxcp.Grxcc

/-! ## Listings -/

/-- An operand: a word, which may name a register; a displacement and its base register; or another text, such
as a number. -/
inductive Operand
  | word (w : List Char)
  | mem (offset base : List Char)
  | other (text : List Char)
deriving DecidableEq

/-- How an operand is printed. -/
def Operand.text : Operand → List Char
  | word w => w
  | mem offset base => offset ++ '(' :: (base ++ [')'])
  | other text => text

/-- The register that an operand names. -/
def Operand.reg : Operand → Option Slot
  | word w => regSlot w
  | mem _ base => regSlot base
  | other _ => none

/-- The symbol behind an address, with the place in the listing of the function that the address is in. -/
structure Target where
  place : Option ℕ
  symbol : List Char
  offset : List Char
deriving DecidableEq

/-- How a symbol is printed, with its offset, such as `+0x10`. -/
def Target.label (t : Target) : List Char :=
  t.symbol ++ t.offset

/-- An instruction. -/
structure Instr where
  address : List Char
  bytes : List Char
  gap : List Char
  mnemonic : List Char
  operands : List Operand
  target : Option Target
deriving DecidableEq

/-- The operands as they are printed. -/
def operandsText : List Operand → List Char
  | [] => []
  | o :: operands => '\t' :: (o.text ++ operands.flatMap fun o => ',' :: ' ' :: o.text)

/-- What is printed behind the operands. -/
def targetText : Option Target → List Char
  | none => []
  | some t => ' ' :: '<' :: (t.label ++ ['>'])

/-- An instruction behind its encoded bytes. -/
def Instr.body (i : Instr) : List Char :=
  i.gap ++ (i.mnemonic ++ (operandsText i.operands ++ targetText i.target))

/-- A line of a function: an instruction, one that the disassembler does not know, or one that has no
instruction. -/
inductive Line
  | instr (i : Instr)
  | unknown (address bytes gap : List Char)
  | other (text : List Char)
deriving DecidableEq

/-- A line with an address and encoded bytes. -/
def codeLine (address bytes body : List Char) : List Char :=
  address ++ ':' :: ' ' :: (bytes ++ body)

/-- How a line is printed. -/
def Line.text : Line → List Char
  | instr i => codeLine i.address i.bytes i.body
  | unknown address bytes gap => codeLine address bytes (gap ++ "<unknown>".toList)
  | other text => text

/-- A function. -/
structure Func where
  address : List Char
  name : List Char
  lines : List Line
deriving DecidableEq

/-- A function's header. -/
def Func.header (f : Func) : List Char :=
  f.address ++ ' ' :: '<' :: (f.name ++ ['>', ':'])

/-- A function's lines as they are printed. -/
def Func.texts (f : Func) : List (List Char) :=
  f.header :: f.lines.map Line.text

/-- The instructions of a function. -/
def Func.instrs (f : Func) : List Instr :=
  f.lines.filterMap fun
    | .instr i => some i
    | _ => none

/-! ## Well-formed listings -/

/-- A character that opens no symbol and ends no line. -/
def Bare (c : Char) : Prop :=
  c ≠ '<' ∧ c ≠ '\n'

instance : DecidablePred Bare :=
  fun _ => inferInstanceAs (Decidable (_ ∧ _))

/-- A text that is no register and no mnemonic that `parse_disasm` looks for. -/
def Mute (t : List Char) : Prop :=
  regSlot t = none ∧ t ≠ "jal".toList ∧ t ≠ "jalr".toList

instance (t : List Char) : Decidable (Mute t) :=
  inferInstanceAs (Decidable (_ ∧ _ ∧ _))

/-- A text that is one token, and no mnemonic that `parse_disasm` looks for. -/
def Word (w : List Char) : Prop :=
  w ≠ [] ∧ (∀ c ∈ w, tokenChar c = true) ∧ w ≠ "jal".toList ∧ w ≠ "jalr".toList

instance (w : List Char) : Decidable (Word w) :=
  inferInstanceAs (Decidable (_ ∧ _ ∧ _ ∧ _))

/-- A text in which no token says anything. -/
def Quiet (t : List Char) : Prop :=
  (∀ c ∈ t, Bare c) ∧ ∀ x ∈ tokens [] t, Mute x

instance (t : List Char) : Decidable (Quiet t) :=
  inferInstanceAs (Decidable (_ ∧ _))

/-- Operands. -/
def Operand.WellFormed : Operand → Prop
  | word w => Word w
  | mem offset base => Quiet offset ∧ Word base
  | other text => Quiet text

instance (o : Operand) : Decidable o.WellFormed :=
  match o with
  | .word w => inferInstanceAs (Decidable (Word w))
  | .mem offset base => inferInstanceAs (Decidable (Quiet offset ∧ Word base))
  | .other text => inferInstanceAs (Decidable (Quiet text))

/-- A symbol, and the offset behind it. -/
def Target.WellFormed (t : Target) : Prop :=
  ∀ c ∈ t.label, c ≠ '>' ∧ c ≠ '\n'

instance (t : Target) : Decidable t.WellFormed :=
  inferInstanceAs (Decidable (∀ c ∈ t.label, c ≠ '>' ∧ c ≠ '\n'))

/-- What stands before an instruction: its address, its bytes and blanks. -/
def Located (address bytes gap : List Char) : Prop :=
  (∀ c ∈ address, c ≠ '>' ∧ c ≠ ':' ∧ c ≠ '\n') ∧ (∀ c ∈ bytes, isBlank c = false ∧ c ≠ '\n') ∧ bytes ≠ [] ∧
    (∀ c ∈ gap, isBlank c = true) ∧ gap ≠ []

instance (address bytes gap : List Char) : Decidable (Located address bytes gap) :=
  inferInstanceAs (Decidable (_ ∧ _ ∧ _ ∧ _ ∧ _))

/-- Instructions. -/
@[mk_iff] structure Instr.WellFormed (i : Instr) : Prop where
  located : Located i.address i.bytes i.gap
  mnemonic : i.mnemonic ≠ [] ∧ (∀ c ∈ i.mnemonic, tokenChar c = true) ∧ regSlot i.mnemonic = none
  operands : ∀ o ∈ i.operands, o.WellFormed
  target : ∀ t ∈ i.target, t.WellFormed

instance (i : Instr) : Decidable i.WellFormed :=
  decidable_of_iff' _ (Instr.wellFormed_iff i)

/-- Lines. One without an instruction may end with a colon. -/
def Line.WellFormed : Line → Prop
  | instr i => i.WellFormed
  | unknown address bytes gap => Located address bytes gap
  | other text => (∀ c ∈ text, Bare c) ∧ ':' ∉ text.dropLast

instance (l : Line) : Decidable l.WellFormed :=
  match l with
  | .instr i => inferInstanceAs (Decidable i.WellFormed)
  | .unknown address bytes gap => inferInstanceAs (Decidable (Located address bytes gap))
  | .other text => inferInstanceAs (Decidable ((∀ c ∈ text, Bare c) ∧ ':' ∉ text.dropLast))

/-- Functions. -/
@[mk_iff] structure Func.WellFormed (f : Func) : Prop where
  address : ∀ c ∈ f.address, c ≠ '<' ∧ c ≠ ':' ∧ c ≠ '\n'
  name : ∀ c ∈ f.name, c ≠ ':' ∧ c ≠ '\n'
  lines : ∀ l ∈ f.lines, l.WellFormed

instance (f : Func) : Decidable f.WellFormed :=
  decidable_of_iff' _ (Func.wellFormed_iff f)

/-- A listing: lines about the file, and functions. -/
structure Listing where
  preamble : List (List Char)
  functions : List Func
  no_header : ∀ l ∈ preamble, ∀ c ∈ l, Bare c
  wellFormed : ∀ f ∈ functions, f.WellFormed

/-- The lines of a listing. -/
def Listing.lines (L : Listing) : List (List Char) :=
  L.preamble ++ L.functions.flatMap Func.texts

/-- The text of a listing. -/
def Listing.text (L : Listing) : List Char :=
  L.lines.flatMap fun l => l ++ ['\n']

/-! ## What is read -/

/-- The tokens of an operand. -/
def Operand.words : Operand → List (List Char)
  | word w => [w]
  | mem offset base => tokens [] offset ++ [base]
  | other text => tokens [] text

/-- The tokens of an instruction. -/
def Instr.words (i : Instr) : List (List Char) :=
  i.mnemonic :: (i.operands.flatMap Operand.words ++ i.target.elim [] fun t => tokens [] t.label)

/-- The symbol of an instruction. -/
def Instr.label (i : Instr) : Option (List Char) :=
  i.target.map Target.label

/-- What is read of a function. -/
def Func.disasm (f : Func) : DisasmFunc :=
  f.instrs.foldl (fun d i => d.take i.words i.label) {}

theorem tokenChar_blank {c : Char} (h : isBlank c = true) : tokenChar c = false := by
  unfold isBlank at h
  rw [Bool.or_eq_true, beq_iff_eq, beq_iff_eq] at h
  rcases h with rfl | rfl
  · decide
  · decide

theorem tokens_append {c : Char} (hc : tokenChar c = false) (tok a b : List Char) :
    tokens tok (a ++ c :: b) = tokens tok a ++ tokens [] b := by
  induction a generalizing tok with
  | nil => simp only [List.nil_append, tokens, hc, Bool.false_eq_true, if_false]
  | cons d a ih =>
    rw [List.cons_append, tokens, tokens]
    by_cases hd : tokenChar d = true
    · rw [if_pos hd, if_pos hd, ih]
    · rw [if_neg hd, if_neg hd, ih, List.append_assoc]

theorem tokens_cons {c : Char} (hc : tokenChar c = false) (b : List Char) : tokens [] (c :: b) = tokens [] b :=
  tokens_append hc [] [] b

theorem tokens_blanks {gap : List Char} (hgap : ∀ c ∈ gap, isBlank c = true) (b : List Char) :
    tokens [] (gap ++ b) = tokens [] b := by
  induction gap with
  | nil => rfl
  | cons c gap ih =>
    obtain ⟨hc, hgap⟩ := List.forall_mem_cons.mp hgap
    rw [List.cons_append, tokens_cons (tokenChar_blank hc), ih hgap]

theorem tokens_word {w : List Char} (hw : ∀ c ∈ w, tokenChar c = true) (tok : List Char) :
    tokens tok w = emit (tok ++ w) := by
  induction w generalizing tok with
  | nil => rw [List.append_nil, tokens]
  | cons c w ih =>
    obtain ⟨hc, hw⟩ := List.forall_mem_cons.mp hw
    rw [tokens, if_pos hc, ih hw, List.append_assoc, List.singleton_append]

/-- A word is one token. -/
theorem tokens_single {w : List Char} (hne : w ≠ []) (hw : ∀ c ∈ w, tokenChar c = true) : tokens [] w = [w] := by
  rw [tokens_word hw, List.nil_append, emit, if_neg hne]

theorem Operand.tokens_text {o : Operand} (h : o.WellFormed) : tokens [] o.text = o.words := by
  cases o with
  | word w => exact tokens_single h.1 h.2.1
  | mem offset base =>
    unfold Operand.text Operand.words
    rw [tokens_append (by decide), tokens_append (by decide), tokens_single h.2.1 h.2.2.1]
    exact congrArg _ (List.append_nil _)
  | other text => rfl

theorem tokens_front {rest : List Char} (h : ∀ c ∈ rest.head?, tokenChar c = false) (tok a : List Char) :
    tokens tok (a ++ rest) = tokens tok a ++ tokens [] rest := by
  cases rest with
  | nil => rw [List.append_nil, tokens, emit, if_pos rfl, List.append_nil]
  | cons c rest =>
    have hc : tokenChar c = false := h c rfl
    rw [tokens_append hc, tokens_cons hc]

theorem separate_targetText (t : Option Target) : ∀ c ∈ (targetText t).head?, tokenChar c = false := by
  intro c hc
  cases t with
  | none => cases hc
  | some t =>
    rw [← Option.some.inj hc]
    decide

theorem tokens_operands {operands : List Operand} (h : ∀ o ∈ operands, o.WellFormed) {rest : List Char}
    (hrest : ∀ c ∈ rest.head?, tokenChar c = false) :
    tokens [] (operands.flatMap (fun o => ',' :: ' ' :: o.text) ++ rest) =
      operands.flatMap Operand.words ++ tokens [] rest := by
  induction operands with
  | nil => rfl
  | cons o operands ih =>
    obtain ⟨ho, h⟩ := List.forall_mem_cons.mp h
    have hsep : ∀ c ∈ (operands.flatMap (fun o => ',' :: ' ' :: o.text) ++ rest).head?, tokenChar c = false := by
      cases operands with
      | nil => exact hrest
      | cons p operands =>
        intro c hc
        rw [← Option.some.inj hc]
        decide
    rw [List.flatMap_cons, List.flatMap_cons, List.append_assoc, List.append_assoc, List.cons_append, List.cons_append,
      tokens_cons (by decide), tokens_cons (by decide), tokens_front hsep, Operand.tokens_text ho, ih h]

theorem tokens_operandsText {operands : List Operand} (h : ∀ o ∈ operands, o.WellFormed) {rest : List Char}
    (hrest : ∀ c ∈ rest.head?, tokenChar c = false) :
    tokens [] (operandsText operands ++ rest) = operands.flatMap Operand.words ++ tokens [] rest := by
  cases operands with
  | nil => rfl
  | cons o operands =>
    -- the first operand is printed as the others are, behind a tab
    have hall := tokens_operands h hrest
    rw [List.flatMap_cons, List.cons_append, List.cons_append, List.cons_append, tokens_cons (by decide),
      List.cons_append, tokens_cons (by decide)] at hall
    rw [operandsText, List.cons_append, tokens_cons (by decide), hall]

theorem separate_operandsText (operands : List Operand) (t : Option Target) :
    ∀ c ∈ (operandsText operands ++ targetText t).head?, tokenChar c = false := by
  cases operands with
  | nil => exact separate_targetText t
  | cons o operands =>
    intro c hc
    rw [← Option.some.inj hc]
    decide

theorem tokens_targetText (t : Option Target) :
    tokens [] (targetText t) = t.elim [] fun t => tokens [] t.label := by
  cases t with
  | none => rfl
  | some t =>
    rw [targetText, tokens_cons (by decide), tokens_cons (by decide), tokens_append (by decide)]
    exact List.append_nil _

/-- The tokens of an instruction's text are those of its mnemonic, its operands and its symbol. -/
theorem Instr.tokens_body {i : Instr} (h : i.WellFormed) : tokens [] i.body = i.words := by
  obtain ⟨-, -, -, hgap, -⟩ := h.located
  rw [Instr.body, tokens_blanks hgap, tokens_front (separate_operandsText _ _), tokens_single h.mnemonic.1 h.mnemonic.2.1,
    tokens_operandsText h.operands (separate_targetText _), tokens_targetText]
  rfl

/-! ## The symbol of an instruction -/

theorem find_none {c : Char} {text : List Char} (h : c ∉ text) : find [c] text = none := by
  cases hfind : find [c] text with
  | none => rfl
  | some n =>
    obtain ⟨rest, hrest⟩ := find_spec hfind
    have hmem : c ∈ text.drop n := hrest ▸ List.mem_cons_self
    exact absurd (List.mem_of_mem_drop hmem) h

theorem callTarget_none {body : List Char} (h : '<' ∉ body) : callTarget body = none := by
  rw [callTarget, find_none h]

theorem callTarget_some {front symbol : List Char} (hfront : '<' ∉ front) (hsymbol : '>' ∉ symbol) :
    callTarget (front ++ '<' :: (symbol ++ ['>'])) = some symbol := by
  have hclose : find ['>'] ('<' :: (symbol ++ ['>'])) = some (symbol.length + 1) := by
    rw [← List.cons_append]
    apply find_char
    rw [List.mem_cons, not_or]
    exact ⟨by decide, hsymbol⟩
  unfold callTarget
  rw [find_char hfront]
  dsimp only
  rw [List.drop_left, hclose]
  dsimp only
  have hlength : front.length + 1 = (front ++ ['<']).length := by rw [List.length_append, List.length_singleton]
  rw [List.append_cons, hlength, List.drop_left, Nat.add_sub_cancel, List.take_left]

theorem bare_tokenChar {c : Char} (h : tokenChar c = true) : Bare c := by
  constructor
  · rintro rfl
    revert h
    decide
  · rintro rfl
    revert h
    decide

theorem bare_blank {c : Char} (h : isBlank c = true) : Bare c := by
  constructor
  · rintro rfl
    revert h
    decide
  · rintro rfl
    revert h
    decide

theorem Operand.bare_text {o : Operand} (h : o.WellFormed) : ∀ c ∈ o.text, Bare c := by
  intro c hc
  cases o with
  | word w => exact bare_tokenChar (h.2.1 c hc)
  | mem offset base =>
    unfold Operand.text at hc
    rw [List.mem_append, List.mem_cons, List.mem_append, List.mem_singleton] at hc
    rcases hc with hc | rfl | hc | rfl
    · exact h.1.1 c hc
    · decide
    · exact bare_tokenChar (h.2.2.1 c hc)
    · decide
  | other text => exact h.1 c hc

theorem bare_operandsText {operands : List Operand} (h : ∀ o ∈ operands, o.WellFormed) :
    ∀ c ∈ operandsText operands, Bare c := by
  have hmore : ∀ operands : List Operand, (∀ o ∈ operands, o.WellFormed) →
      ∀ c ∈ operands.flatMap (fun o => ',' :: ' ' :: o.text), Bare c := by
    intro operands h c hc
    obtain ⟨o, ho, hc⟩ := List.mem_flatMap.mp hc
    rcases List.mem_cons.mp hc with rfl | hc
    · decide
    · rcases List.mem_cons.mp hc with rfl | hc
      · decide
      · exact Operand.bare_text (h o ho) c hc
  cases operands with
  | nil => exact fun c hc => absurd hc List.not_mem_nil
  | cons o operands =>
    obtain ⟨ho, h⟩ := List.forall_mem_cons.mp h
    intro c hc
    rw [operandsText, List.mem_cons, List.mem_append] at hc
    rcases hc with rfl | hc | hc
    · decide
    · exact Operand.bare_text ho c hc
    · exact hmore operands h c hc

/-- What is printed of an instruction before its symbol. -/
theorem Instr.bare_front {i : Instr} (h : i.WellFormed) :
    ∀ c ∈ i.gap ++ (i.mnemonic ++ operandsText i.operands), Bare c := by
  obtain ⟨-, -, -, hgap, -⟩ := h.located
  intro c hc
  rw [List.mem_append, List.mem_append] at hc
  rcases hc with hc | hc | hc
  · exact bare_blank (hgap c hc)
  · exact bare_tokenChar (h.mnemonic.2.1 c hc)
  · exact bare_operandsText h.operands c hc

theorem Instr.body_eq (i : Instr) :
    i.body = i.gap ++ (i.mnemonic ++ operandsText i.operands) ++ targetText i.target := by
  rw [Instr.body, List.append_assoc, List.append_assoc]

/-- The symbol of an instruction is read. -/
theorem Instr.callTarget_body {i : Instr} (h : i.WellFormed) : callTarget i.body = i.label := by
  have hfront : '<' ∉ i.gap ++ (i.mnemonic ++ operandsText i.operands) := fun hmem => (Instr.bare_front h _ hmem).1 rfl
  rw [Instr.body_eq, Instr.label]
  cases htarget : i.target with
  | none =>
    rw [targetText, List.append_nil]
    exact callTarget_none hfront
  | some t =>
    have hlabel : '>' ∉ t.label := fun hmem => (h.target t htarget _ hmem).1 rfl
    rw [targetText, List.append_cons]
    apply callTarget_some _ hlabel
    rw [List.mem_append, List.mem_singleton, not_or]
    exact ⟨hfront, by decide⟩

/-! ## Lines -/

theorem headerName_codeLine {address : List Char} (haddress : ∀ c ∈ address, c ≠ '>' ∧ c ≠ ':' ∧ c ≠ '\n')
    (bytes body : List Char) : headerName (codeLine address bytes body) = none := by
  have hcolon : find [':'] (codeLine address bytes body) = some address.length :=
    find_char (fun hmem => (haddress _ hmem).2.1 rfl) _
  unfold headerName
  split
  · next lt gt _ hgt =>
    refine if_neg fun ⟨_, hfirst⟩ => ?_
    -- the first colon is behind the address, which does not end with a bracket
    obtain ⟨rest, hrest⟩ := find_spec hgt
    rw [hcolon] at hfirst
    have hlength : address.length = gt + 1 := Option.some.inj hfirst
    have hget : (codeLine address bytes body)[gt]? = some '>' := by
      rw [← List.head?_drop, ← hrest]
      rfl
    rw [codeLine, List.getElem?_append_left (by omega)] at hget
    exact (haddress _ (List.mem_of_getElem? hget)).1 rfl
  · rfl

theorem parseInstr_codeLine {address bytes gap : List Char} (h : Located address bytes gap) (f : DisasmFunc)
    (body : List Char) :
    parseInstr f (codeLine address bytes (gap ++ body)) = f.take (tokens [] (gap ++ body)) (callTarget (gap ++ body)) := by
  obtain ⟨haddress, hbytes, hsome, hgap, hblank⟩ := h
  have hcolon : find [':'] (codeLine address bytes (gap ++ body)) = some address.length :=
    find_char (fun hmem => (haddress _ hmem).2.1 rfl) _
  have hdrop : (codeLine address bytes (gap ++ body)).drop (address.length + 1) = ' ' :: (bytes ++ (gap ++ body)) := by
    have hlength : address.length + 1 = (address ++ [':']).length := by rw [List.length_append, List.length_singleton]
    rw [codeLine, List.append_cons, hlength, List.drop_left]
  have hskip : (' ' :: (bytes ++ (gap ++ body))).dropWhile isBlank = bytes ++ (gap ++ body) := by
    rw [List.dropWhile_cons_of_pos rfl]
    obtain ⟨b, bytes, rfl⟩ := List.exists_cons_of_ne_nil hsome
    have hb : ¬isBlank b = true := Bool.eq_false_iff.mp (hbytes b List.mem_cons_self).1
    rw [List.cons_append, List.dropWhile_cons_of_neg hb]
  have hfield : (bytes ++ (gap ++ body)).dropWhile (fun c => !isBlank c) = gap ++ body := by
    rw [List.dropWhile_append_of_pos]
    · obtain ⟨g, gap, rfl⟩ := List.exists_cons_of_ne_nil hblank
      have hg : isBlank g = true := hgap g List.mem_cons_self
      rw [List.cons_append, List.dropWhile_cons_of_neg]
      rw [hg]
      decide
    · intro c hc
      rw [(hbytes c hc).1]
      rfl
  have hline : bytes ++ (gap ++ body) ≠ [] := List.append_ne_nil_of_left_ne_nil hsome _
  have hbody : gap ++ body ≠ [] := List.append_ne_nil_of_left_ne_nil hblank _
  rw [parseInstr, hcolon]
  show (if ((codeLine address bytes (gap ++ body)).drop (address.length + 1)).dropWhile isBlank = [] then f else _) = _
  rw [hdrop, hskip, if_neg hline, hfield, if_neg hbody]

theorem slotsOf_mute {toks : List (List Char)} (h : ∀ x ∈ toks, Mute x) : slotsOf toks = ∅ := by
  have hnone : toks.filterMap regSlot = [] := List.filterMap_eq_nil_iff.mpr fun x hx => (h x hx).1
  rw [slotsOf, hnone]
  rfl

theorem DisasmFunc.take_mute {toks : List (List Char)} (h : ∀ x ∈ toks, Mute x) (d : DisasmFunc)
    (target : Option (List Char)) : d.take toks target = d := by
  have hjal : "jal".toList ∉ toks := fun hmem => (h _ hmem).2.1 rfl
  have hjalr : "jalr".toList ∉ toks := fun hmem => (h _ hmem).2.2 rfl
  rw [DisasmFunc.take.eq_def, if_neg hjal, slotsOf_mute h, Finset.union_empty, decide_eq_false hjalr, Bool.or_false]

/-- A line that is no header is read as what it is. -/
def DisasmFunc.line (d : DisasmFunc) : Line → DisasmFunc
  | .instr i => d.take i.words i.label
  | _ => d

theorem headerName_line {l : Line} (h : l.WellFormed) : headerName l.text = none := by
  cases l with
  | instr i => exact headerName_codeLine h.located.1 _ _
  | unknown address bytes gap => exact headerName_codeLine h.1 _ _
  | other text =>
    have hnone : find ['<'] text = none := find_none fun hmem => (h.1 _ hmem).1 rfl
    rw [headerName, Line.text, hnone]

theorem parseInstr_line {l : Line} (h : l.WellFormed) (d : DisasmFunc) : parseInstr d l.text = d.line l := by
  cases l with
  | instr i =>
    rw [Line.text, Instr.body, parseInstr_codeLine h.located, ← Instr.body, Instr.tokens_body h, Instr.callTarget_body h]
    rfl
  | unknown address bytes gap =>
    have htokens : tokens [] (gap ++ "<unknown>".toList) = ["unknown".toList] := by
      rw [tokens_blanks h.2.2.2.1]
      decide
    rw [Line.text, parseInstr_codeLine h, htokens]
    apply DisasmFunc.take_mute
    decide
  | other text =>
    rw [Line.text, parseInstr]
    rcases text.eq_nil_or_concat' with rfl | ⟨front, c, rfl⟩
    · rfl
    · have hfront : ':' ∉ front := by
        have hlast := h.2
        rw [List.dropLast_concat] at hlast
        exact hlast
      by_cases hc : c = ':'
      · -- nothing is behind the colon
        have hdrop : (front ++ [c]).drop (front.length + 1) = [] := by
          apply List.drop_eq_nil_of_le
          rw [List.length_append, List.length_singleton]
        rw [hc, find_char hfront, ← hc]
        show (if ((front ++ [c]).drop (front.length + 1)).dropWhile isBlank = [] then d else _) = d
        rw [hdrop]
        rfl
      · have hnone : ':' ∉ front ++ [c] := by
          rw [List.mem_append, List.mem_singleton, not_or]
          exact ⟨hfront, Ne.symm hc⟩
        rw [find_none hnone]
        rfl

/-! ## The text of a listing -/

theorem headerName_header {f : Func} (h : f.WellFormed) : headerName f.header = some f.name := by
  have hopen : find ['<'] f.header = some (f.address.length + 1) := by
    have hfront : '<' ∉ f.address ++ [' '] := by
      rw [List.mem_append, List.mem_singleton, not_or]
      exact ⟨fun hmem => (h.address _ hmem).1 rfl, by decide⟩
    have hfind := find_char hfront (f.name ++ ['>', ':'])
    rw [List.append_assoc, List.length_append] at hfind
    exact hfind
  have hfront : ':' ∉ f.address ++ ' ' :: '<' :: (f.name ++ ['>']) := by
    simp only [List.mem_append, List.mem_cons, List.not_mem_nil, or_false, not_or]
    exact ⟨fun hmem => (h.address _ hmem).2.1 rfl, by decide, by decide, fun hmem => (h.name _ hmem).1 rfl, by decide⟩
  have hheader : f.header = f.address ++ ' ' :: '<' :: (f.name ++ ['>']) ++ [':'] := by
    simp only [Func.header, List.append_assoc, List.cons_append, List.nil_append]
  have hcolon : find [':'] f.header = some (f.address.length + 2 + f.name.length + 1) := by
    have hfind := find_char hfront []
    rw [← hheader] at hfind
    rw [hfind]
    simp only [List.length_append, List.length_cons, List.length_nil]
    congr 1
    omega
  -- the brackets close before the only colon
  have hclose : find ['>', ':'] f.header = some (f.address.length + 2 + f.name.length) := by
    obtain ⟨n, hn, hfind⟩ := find_append_le ['>', ':'] (f.address ++ ' ' :: '<' :: f.name) []
    have hsame : f.address ++ ' ' :: '<' :: f.name ++ (['>', ':'] ++ []) = f.header := by
      simp only [Func.header, List.append_assoc, List.cons_append, List.append_nil]
    rw [hsame] at hfind
    obtain ⟨rest, hrest⟩ := find_spec hfind
    have hget : f.header[n + 1]? = some ':' := by
      rw [← List.head?_drop, ← List.drop_drop, ← hrest]
      rfl
    have hlast : ¬n + 1 < (f.address ++ ' ' :: '<' :: (f.name ++ ['>'])).length := by
      intro hlt
      rw [hheader, List.getElem?_append_left hlt] at hget
      exact hfront (List.mem_of_getElem? hget)
    rw [hfind]
    simp only [List.length_append, List.length_cons, List.length_nil] at hn hlast
    congr 1
    omega
  have hname : (f.header.drop (f.address.length + 1 + 1)).take f.name.length = f.name := by
    have hlength : f.address.length + 1 + 1 = (f.address ++ [' ', '<']).length := by
      rw [List.length_append]
      rfl
    have hsplit : f.header = f.address ++ [' ', '<'] ++ (f.name ++ ['>', ':']) := by
      rw [Func.header, List.append_assoc]
      rfl
    rw [hsplit, hlength, List.drop_left, List.take_left]
  have hcount : f.address.length + 2 + f.name.length - (f.address.length + 1) - 1 = f.name.length := by omega
  unfold headerName
  rw [hopen, hclose]
  show (if f.address.length + 1 < f.address.length + 2 + f.name.length ∧
      find [':'] f.header = some (f.address.length + 2 + f.name.length + 1) then _ else _) = some f.name
  rw [if_pos ⟨by omega, hcolon⟩, hcount, hname]

theorem parseLine_header {f : Func} (h : f.WellFormed) (out : List (List Char × DisasmFunc)) :
    parseLine out f.header = (f.name, {}) :: out := by
  have hsome : f.header ≠ [] := List.append_ne_nil_of_right_ne_nil _ (List.cons_ne_nil _ _)
  unfold parseLine
  rw [if_neg hsome, headerName_header h]

theorem parseLine_line {l : Line} (h : l.WellFormed) (name : List Char) (d : DisasmFunc)
    (out : List (List Char × DisasmFunc)) : parseLine ((name, d) :: out) l.text = (name, d.line l) :: out := by
  unfold parseLine
  rw [← parseInstr_line h, headerName_line h]
  by_cases hl : l.text = []
  · rw [if_pos hl, hl]
    rfl
  · rw [if_neg hl]

theorem Func.parse_texts {f : Func} (h : f.WellFormed) (out : List (List Char × DisasmFunc)) :
    f.texts.foldl parseLine out = (f.name, f.disasm) :: out := by
  have hlines : ∀ lines : List Line, (∀ l ∈ lines, l.WellFormed) → ∀ d : DisasmFunc,
      (lines.map Line.text).foldl parseLine ((f.name, d) :: out) = (f.name, lines.foldl DisasmFunc.line d) :: out := by
    intro lines
    induction lines with
    | nil => exact fun _ d => rfl
    | cons l lines ih =>
      intro h d
      obtain ⟨hl, h⟩ := List.forall_mem_cons.mp h
      rw [List.map_cons, List.foldl_cons, parseLine_line hl, ih h, List.foldl_cons]
  have hdisasm : f.lines.foldl DisasmFunc.line {} = f.disasm := by
    rw [Func.disasm, Func.instrs, List.foldl_filterMap]
    congr 1
    funext d l
    cases l with
    | instr i => rfl
    | unknown address bytes gap => rfl
    | other text => rfl
  rw [Func.texts, List.foldl_cons, parseLine_header h, hlines f.lines h.lines, hdisasm]

theorem splitOn_lines {lines : List (List Char)} (h : ∀ l ∈ lines, '\n' ∉ l) :
    (lines.flatMap fun l => l ++ ['\n']).splitOn '\n' = lines ++ [[]] := by
  induction lines with
  | nil => rfl
  | cons l lines ih =>
    obtain ⟨hl, h⟩ := List.forall_mem_cons.mp h
    rw [List.flatMap_cons, List.append_assoc, List.singleton_append, List.splitOn_append_cons_self_of_not_mem hl, ih h]
    rfl

theorem Located.newline {address bytes gap : List Char} (h : Located address bytes gap) {body : List Char}
    (hbody : '\n' ∉ body) : '\n' ∉ codeLine address bytes (gap ++ body) := by
  obtain ⟨haddress, hbytes, -, hgap, -⟩ := h
  rw [codeLine, List.mem_append, List.mem_cons, List.mem_cons, List.mem_append, List.mem_append]
  rintro (hmem | hmem | hmem | hmem | hmem | hmem)
  · exact (haddress _ hmem).2.2 rfl
  · revert hmem
    decide
  · revert hmem
    decide
  · exact (hbytes _ hmem).2 rfl
  · exact (bare_blank (hgap _ hmem)).2 rfl
  · exact hbody hmem

theorem Line.newline {l : Line} (h : l.WellFormed) : '\n' ∉ l.text := by
  cases l with
  | instr i =>
    apply Located.newline h.located
    intro hmem
    rw [← List.append_assoc, List.mem_append] at hmem
    rcases hmem with hmem | hmem
    · exact (Instr.bare_front h _ (List.mem_append_right _ hmem)).2 rfl
    · cases htarget : i.target with
      | none =>
        rw [htarget] at hmem
        exact List.not_mem_nil hmem
      | some t =>
        rw [htarget, targetText, List.mem_cons, List.mem_cons, List.mem_append] at hmem
        rcases hmem with hmem | hmem | hmem | hmem
        · revert hmem
          decide
        · revert hmem
          decide
        · exact (h.target t htarget _ hmem).2 rfl
        · revert hmem
          decide
  | unknown address bytes gap => exact Located.newline h (by decide)
  | other text => exact fun hmem => (h.1 _ hmem).2 rfl

theorem Listing.newline (L : Listing) : ∀ l ∈ L.lines, '\n' ∉ l := by
  intro l hl
  rcases List.mem_append.mp hl with hl | hl
  · exact fun hmem => (L.no_header l hl _ hmem).2 rfl
  · obtain ⟨f, hf, hl⟩ := List.mem_flatMap.mp hl
    have hwf := L.wellFormed f hf
    rcases List.mem_cons.mp hl with rfl | hl
    · simp only [Func.header, List.mem_append, List.mem_cons, List.not_mem_nil, or_false, not_or]
      exact ⟨fun hmem => (hwf.address _ hmem).2.2 rfl, by decide, by decide, fun hmem => (hwf.name _ hmem).2 rfl,
        by decide, by decide⟩
    · obtain ⟨k, hk, rfl⟩ := List.mem_map.mp hl
      exact Line.newline (hwf.lines k hk)

/-- The functions are read from the text. -/
theorem parseDisasm_text (L : Listing) : parseDisasm L.text = L.functions.map fun f => (f.name, f.disasm) := by
  have hpreamble : L.preamble.foldl parseLine [] = [] := by
    have hall := L.no_header
    generalize L.preamble = preamble at hall ⊢
    induction preamble with
    | nil => rfl
    | cons l preamble ih =>
      obtain ⟨hl, hall⟩ := List.forall_mem_cons.mp hall
      have hnone : headerName l = none := by
        rw [headerName, find_none fun hmem => (hl _ hmem).1 rfl]
      have hskip : parseLine [] l = [] := by
        unfold parseLine
        rw [hnone]
        exact ite_self []
      rw [List.foldl_cons, hskip, ih hall]
  have hfunctions : ∀ functions : List Func, (∀ f ∈ functions, f.WellFormed) → ∀ out,
      (functions.flatMap Func.texts).foldl parseLine out = (functions.map fun f => (f.name, f.disasm)).reverse ++ out := by
    intro functions
    induction functions with
    | nil => exact fun _ out => rfl
    | cons f functions ih =>
      intro h out
      obtain ⟨hf, h⟩ := List.forall_mem_cons.mp h
      rw [List.flatMap_cons, List.foldl_append, Func.parse_texts hf, ih h, List.map_cons, List.reverse_cons,
        List.append_assoc]
      rfl
  have hlast : ∀ out, parseLine out [] = out := fun out => rfl
  rw [parseDisasm, Listing.text, splitOn_lines L.newline, List.foldl_append, List.foldl_cons, List.foldl_nil, hlast,
    Listing.lines, List.foldl_append, hpreamble, hfunctions _ L.wellFormed, List.append_nil, List.reverse_reverse]

end Grxcp.Grxcc
