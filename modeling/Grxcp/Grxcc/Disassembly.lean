import Grxcp.Grxcc.Lexer
import Grxcp.Lib.Worklist

/-!
# Register measurement

`parse_disasm` and `count_registers` of `tools/grxcc/main.cpp`, over the text that `llvm-objdump -d` prints.
-/

namespace Grxcp.Grxcc

/-- A slot of `DisasmFunc`: x0-x31 then f0-f31. -/
abbrev Slot := Fin 64

/-- `DisasmFunc`. -/
structure DisasmFunc where
  regs : Finset Slot := ∅
  calls : List (List Char) := []
  indirect : Bool := false
deriving DecidableEq

/-- `kInt`. -/
def kInt : List (List Char) :=
  ["zero", "ra", "sp", "gp", "tp", "t0", "t1", "t2", "s0", "s1", "a0", "a1", "a2", "a3", "a4", "a5", "a6", "a7",
    "s2", "s3", "s4", "s5", "s6", "s7", "s8", "s9", "s10", "s11", "t3", "t4", "t5", "t6"].map String.toList

/-- `kFlt`. -/
def kFlt : List (List Char) :=
  ["ft0", "ft1", "ft2", "ft3", "ft4", "ft5", "ft6", "ft7", "fs0", "fs1", "fa0", "fa1", "fa2", "fa3", "fa4", "fa5",
    "fa6", "fa7", "fs2", "fs3", "fs4", "fs5", "fs6", "fs7", "fs8", "fs9", "fs10", "fs11", "ft8", "ft9", "ft10",
    "ft11"].map String.toList

/-- `reg_slot`. -/
def regSlot (t : List Char) : Option Slot :=
  if h : (kInt ++ kFlt).idxOf t < 64 then some ⟨(kInt ++ kFlt).idxOf t, h⟩
  else if t = "fp".toList then some 8
  else none

/-- A space or a tab. -/
def isBlank (c : Char) : Bool :=
  c == ' ' || c == '\t'

/-- What a token is made of. -/
def tokenChar (c : Char) : Bool :=
  identChar c || c == '.'

/-- A token that has been read, if there is one. -/
def emit (tok : List Char) : List (List Char) :=
  if tok = [] then [] else [tok]

/-- The loop over an instruction's characters, with the token that is being read. -/
def tokens (tok : List Char) : List Char → List (List Char)
  | [] => emit tok
  | c :: body => if tokenChar c then tokens (tok ++ [c]) body else emit tok ++ tokens [] body

/-- The name in a function header, if the line is one. -/
def headerName (line : List Char) : Option (List Char) :=
  match find ['<'] line, find ['>', ':'] line with
  | some lt, some gt =>
    if lt < gt ∧ find [':'] line = some (gt + 1) then some ((line.drop (lt + 1)).take (gt - lt - 1)) else none
  | _, _ => none

/-- The symbol of an instruction. -/
def callTarget (body : List Char) : Option (List Char) :=
  match find ['<'] body with
  | none => none
  | some tl =>
    match find ['>'] (body.drop tl) with
    | none => none
    | some n => some ((body.drop (tl + 1)).take (n - 1))

/-- The registers among some tokens; slot 0 is x0. -/
def slotsOf (toks : List (List Char)) : Finset Slot :=
  (toks.filterMap regSlot).toFinset.filter (0 < ·)

/-- The function takes the tokens of an instruction, and its symbol. -/
def DisasmFunc.take (f : DisasmFunc) (toks : List (List Char)) (target : Option (List Char)) : DisasmFunc :=
  let f := { f with
    regs := f.regs ∪ slotsOf toks
    indirect := f.indirect || decide ("jalr".toList ∈ toks) }
  if "jal".toList ∈ toks then
    match target with
    | some symbol => { f with calls := f.calls ++ [symbol] }
    | none => { f with indirect := true }
  else f

/-- A line that is not a function header: what follows the address and the encoded bytes is an instruction. -/
def parseInstr (f : DisasmFunc) (line : List Char) : DisasmFunc :=
  match find [':'] line with
  | none => f
  | some colon =>
    let body := (line.drop (colon + 1)).dropWhile isBlank
    if body = [] then f
    else
      let body := body.dropWhile fun c => !isBlank c
      if body = [] then f else f.take (tokens [] body) (callTarget body)

/-- A line. The functions are those so far, the last one first. -/
def parseLine (out : List (List Char × DisasmFunc)) (line : List Char) : List (List Char × DisasmFunc) :=
  if line = [] then out
  else
    match headerName line with
    | some name => (name, {}) :: out
    | none =>
      match out with
      | [] => []
      | cur :: out => (cur.1, parseInstr cur.2 line) :: out

/-- `parse_disasm`. -/
def parseDisasm (text : List Char) : List (List Char × DisasmFunc) :=
  ((text.splitOn '\n').foldl parseLine []).reverse

/-- The first function of a name. -/
def lookup (funcs : List (List Char × DisasmFunc)) (name : List Char) : Option DisasmFunc :=
  (funcs.find? fun e => e.1 = name).map Prod.snd

/-- What `count_registers` walks: it follows the calls of a function that it finds and that has no indirect
one. -/
def callGraph (funcs : List (List Char × DisasmFunc)) : Worklist.Graph (List Char) where
  known := funcs.map Prod.fst
  next name := (lookup funcs name).bind fun f => if f.indirect then none else some f.calls
  inside name h := by
    obtain ⟨f, hf⟩ := Option.isSome_iff_exists.mp (Option.isSome_of_isSome_bind h)
    obtain ⟨e, he, -⟩ := Option.map_eq_some_iff.mp hf
    have hname := List.find?_some he
    rw [decide_eq_true_eq] at hname
    exact hname ▸ List.mem_map_of_mem (List.mem_of_find?_eq_some he)

/-- What it gathers at a function: `seen_regs` and `found_entry`. -/
def gather (funcs : List (List Char × DisasmFunc)) (entry : List Char) (acc : Finset Slot × Bool)
    (name : List Char) : Finset Slot × Bool :=
  (acc.1 ∪ ((lookup funcs name).map fun f => f.regs.filter (1 ≤ ·)).getD ∅, acc.2 || decide (name = entry))

/-- The first of some spellings that is a name. -/
def firstName (names entries : List (List Char)) : Option (List Char) :=
  entries.find? fun cand => decide (cand ∈ names) && decide (cand ≠ [])

/-- The entry: the first of its spellings that names a function. -/
def findEntry (funcs : List (List Char × DisasmFunc)) (entries : List (List Char)) : Option (List Char) :=
  firstName (funcs.map Prod.fst) entries

/-- What follows the loop of `count_registers`, which has no result where it has returned -1. -/
def countSeen : Option (Finset Slot × Bool) → ℤ
  | none => -1
  | some acc => if acc.2 then (acc.1.filter (1 ≤ ·)).card else -1

/-- `count_registers`. -/
def countRegisters (funcs : List (List Char × DisasmFunc)) (entries : List (List Char)) : ℤ :=
  match findEntry funcs entries with
  | none => -1
  | some entry => countSeen (Worklist.search (callGraph funcs) (gather funcs entry) [entry] [] (∅, false))

end Grxcp.Grxcc
