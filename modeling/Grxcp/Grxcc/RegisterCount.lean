import Grxcp.Grxcc.Listing
import Mathlib.Data.Set.Card

/-!
# The registers of a kernel

Control goes from function to function of a listing by the instructions that name an address in another one.
`count_registers` follows the ones that `parse_disasm` has taken for calls. It counts what the functions name if
that finds as many registers as there are.
-/

namespace Grxcp.Grxcc

/-! ## Where control goes -/

/-- The mnemonics that transfer control to an address which the instruction has: calls, jumps and branches. -/
def directMnemonics : List (List Char) :=
  ["jal", "j", "call", "tail", "beq", "bne", "blt", "bge", "bltu", "bgeu", "bgt", "ble", "bgtu", "bleu", "beqz", "bnez",
    "blez", "bgez", "bltz", "bgtz", "c.jal", "c.j", "c.beqz", "c.bnez"].map String.toList

/-- The mnemonics that transfer control to an address in a register. -/
def indirectMnemonics : List (List Char) :=
  ["jalr", "jr", "c.jalr", "c.jr"].map String.toList

/-- A direct transfer. -/
def Instr.Direct (i : Instr) : Prop :=
  i.mnemonic ∈ directMnemonics

/-- A return, where it is not printed as `ret`. -/
def Instr.Returns (i : Instr) : Prop :=
  i.operands = [.word "ra".toList] ∧ (i.mnemonic = "jr".toList ∨ i.mnemonic = "c.jr".toList) ∨
    i.operands = [.word "zero".toList, .mem "0".toList "ra".toList] ∧ i.mnemonic = "jalr".toList

/-- An indirect transfer. -/
def Instr.Indirect (i : Instr) : Prop :=
  i.mnemonic ∈ indirectMnemonics ∧ ¬i.Returns

/-- The registers that an instruction names. -/
def Instr.regs (i : Instr) : Set Slot :=
  {s | 0 < s.val ∧ ∃ o ∈ i.operands, o.reg = some s}

/-- A direct transfer from the function at one place into the one at another. -/
def Listing.Goes (L : Listing) (a b : ℕ) : Prop :=
  ∃ f, L.functions[a]? = some f ∧ ∃ i ∈ f.instrs, i.Direct ∧ ∃ t, i.target = some t ∧ t.place = some b

/-- Every transfer from the function at a place is direct, or a return, and goes to a function of the
listing. -/
def Listing.Plain (L : Listing) (a : ℕ) : Prop :=
  ∀ f, L.functions[a]? = some f → ∀ i ∈ f.instrs, ¬i.Indirect ∧
    (i.Direct → ∃ t b, i.target = some t ∧ t.place = some b ∧ b < L.functions.length)

/-- The registers that the functions name which the one at a place reaches. -/
def Listing.named (L : Listing) (a : ℕ) : Set Slot :=
  {s | ∃ b, Relation.ReflTransGen L.Goes a b ∧ ∃ f, L.functions[b]? = some f ∧ ∃ i ∈ f.instrs, s ∈ i.regs}

/-- The kernel's name: the first of its spellings that names a function. -/
def Listing.entry (L : Listing) (entries : List (List Char)) : Option (List Char) :=
  firstName (L.functions.map Func.name) entries

/-- The place of the first function of a name. -/
def Listing.place (L : Listing) (name : List Char) : ℕ :=
  L.functions.findIdx fun f => f.name = name

/-- What is measured is unknown, or the exact number of the registers that the functions name which the kernel
reaches, none of which transfers control to where the listing does not say. -/
def Listing.Measures (L : Listing) (entries : List (List Char)) (n : ℤ) : Prop :=
  n = -1 ∨ ∃ name, L.entry entries = some name ∧
    (∀ b, Relation.ReflTransGen L.Goes (L.place name) b → L.Plain b) ∧ n = (L.named (L.place name)).ncard

/-! ## What is followed -/

/-- The first function of a name. -/
def Listing.function (L : Listing) (name : List Char) : Option Func :=
  L.functions.find? fun f => f.name = name

/-- An instruction with the word `jalr`, or with the word `jal` and no symbol. -/
def Instr.Unresolved (i : Instr) : Prop :=
  "jalr".toList ∈ i.words ∨ "jal".toList ∈ i.words ∧ i.label = none

/-- There is no function of the name, or it has such an instruction. -/
def Listing.Stops (L : Listing) (name : List Char) : Prop :=
  ∀ f, L.function name = some f → ∃ i ∈ f.instrs, i.Unresolved

/-- The function of a name, which is read to its end, has an instruction with the word `jal` and the other name
as its symbol. -/
def Listing.Follows (L : Listing) (a b : List Char) : Prop :=
  ¬L.Stops a ∧ ∃ f, L.function a = some f ∧ ∃ i ∈ f.instrs, "jal".toList ∈ i.words ∧ i.label = some b

/-- The registers that are spelled in the functions which are followed. -/
def Listing.read (L : Listing) (a : List Char) : Set Slot :=
  {s | ∃ b, Relation.ReflTransGen L.Follows a b ∧ ∃ f, L.function b = some f ∧ ∃ i ∈ f.instrs, s ∈ slotsOf i.words}

theorem mem_slotsOf {toks : List (List Char)} {s : Slot} : s ∈ slotsOf toks ↔ 0 < s ∧ ∃ t ∈ toks, regSlot t = some s := by
  rw [slotsOf, Finset.mem_filter, List.mem_toFinset, List.mem_filterMap, and_comm]

/-! ## What is read of a function -/

section Take

variable (d : DisasmFunc) (toks : List (List Char)) (target : Option (List Char))

theorem DisasmFunc.take_regs : (d.take toks target).regs = d.regs ∪ slotsOf toks := by
  by_cases hjal : "jal".toList ∈ toks
  · rw [DisasmFunc.take.eq_def, if_pos hjal]
    cases target with
    | none => rfl
    | some symbol => rfl
  · rw [DisasmFunc.take.eq_def, if_neg hjal]

theorem DisasmFunc.mem_take_calls {b : List Char} :
    b ∈ (d.take toks target).calls ↔ b ∈ d.calls ∨ "jal".toList ∈ toks ∧ target = some b := by
  by_cases hjal : "jal".toList ∈ toks
  · rw [DisasmFunc.take.eq_def, if_pos hjal]
    cases target with
    | none =>
      rw [and_iff_right hjal]
      exact ⟨.inl, fun h => h.resolve_right (Option.some_ne_none b).symm⟩
    | some symbol =>
      show b ∈ d.calls ++ [symbol] ↔ _
      rw [List.mem_append, List.mem_singleton, and_iff_right hjal, Option.some.injEq, eq_comm]
  · rw [DisasmFunc.take.eq_def, if_neg hjal]
    exact ⟨.inl, fun h => h.resolve_right fun hboth => hjal hboth.1⟩

theorem DisasmFunc.take_indirect : (d.take toks target).indirect = true ↔
    d.indirect = true ∨ "jalr".toList ∈ toks ∨ "jal".toList ∈ toks ∧ target = none := by
  have hjalr : (d.indirect || decide ("jalr".toList ∈ toks)) = true ↔ d.indirect = true ∨ "jalr".toList ∈ toks := by
    rw [Bool.or_eq_true, decide_eq_true_eq]
  by_cases hjal : "jal".toList ∈ toks
  · rw [DisasmFunc.take.eq_def, if_pos hjal]
    cases target with
    | none => exact iff_of_true rfl (.inr (.inr ⟨hjal, rfl⟩))
    | some symbol =>
      refine hjalr.trans (or_congr_right ?_)
      exact ⟨.inl, fun h => h.resolve_right fun hboth => Option.some_ne_none symbol hboth.2⟩
  · rw [DisasmFunc.take.eq_def, if_neg hjal]
    refine hjalr.trans (or_congr_right ?_)
    exact ⟨.inl, fun h => h.resolve_right fun hboth => hjal hboth.1⟩

end Take

/-- What is read of a function's instructions, one after the other. -/
theorem disasm_foldl (instrs : List Instr) (d : DisasmFunc) :
    (∀ s, s ∈ (instrs.foldl (fun d i => d.take i.words i.label) d).regs ↔ s ∈ d.regs ∨ ∃ i ∈ instrs, s ∈ slotsOf i.words) ∧
      (∀ b, b ∈ (instrs.foldl (fun d i => d.take i.words i.label) d).calls ↔
        b ∈ d.calls ∨ ∃ i ∈ instrs, "jal".toList ∈ i.words ∧ i.label = some b) ∧
      ((instrs.foldl (fun d i => d.take i.words i.label) d).indirect = true ↔
        d.indirect = true ∨ ∃ i ∈ instrs, i.Unresolved) := by
  induction instrs generalizing d with
  | nil => simp only [List.foldl_nil, List.not_mem_nil, false_and, exists_false, or_false, implies_true, and_self]
  | cons i instrs ih =>
    obtain ⟨hregs, hcalls, hindirect⟩ := ih (d.take i.words i.label)
    refine ⟨fun s => ?_, fun b => ?_, ?_⟩
    · rw [List.foldl_cons, hregs, DisasmFunc.take_regs, Finset.mem_union, List.exists_mem_cons_iff, or_assoc]
    · rw [List.foldl_cons, hcalls, DisasmFunc.mem_take_calls, List.exists_mem_cons_iff, or_assoc]
    · rw [List.foldl_cons, hindirect, DisasmFunc.take_indirect, List.exists_mem_cons_iff, or_assoc]
      rfl

theorem Func.mem_regs {f : Func} {s : Slot} : s ∈ f.disasm.regs ↔ ∃ i ∈ f.instrs, s ∈ slotsOf i.words :=
  ((disasm_foldl f.instrs {}).1 s).trans (or_iff_right (Finset.notMem_empty s))

theorem Func.mem_calls {f : Func} {b : List Char} :
    b ∈ f.disasm.calls ↔ ∃ i ∈ f.instrs, "jal".toList ∈ i.words ∧ i.label = some b :=
  ((disasm_foldl f.instrs {}).2.1 b).trans (or_iff_right List.not_mem_nil)

theorem Func.indirect_iff {f : Func} : f.disasm.indirect = true ↔ ∃ i ∈ f.instrs, i.Unresolved :=
  (disasm_foldl f.instrs {}).2.2.trans (or_iff_right Bool.false_ne_true)

/-! ## What is counted -/

/-- The functions as they are read. -/
def Listing.funcs (L : Listing) : List (List Char × DisasmFunc) :=
  L.functions.map fun f => (f.name, f.disasm)

theorem Listing.lookup_funcs (L : Listing) (name : List Char) :
    lookup L.funcs name = (L.function name).map Func.disasm := by
  rw [lookup, Listing.funcs, Listing.function, List.find?_map, Option.map_map]
  rfl

theorem Listing.next_iff (L : Listing) (name : List Char) (more : List (List Char)) :
    (callGraph L.funcs).next name = some more ↔
      ¬L.Stops name ∧ ∃ f, L.function name = some f ∧ f.disasm.calls = more := by
  show ((lookup L.funcs name).bind fun f => if f.indirect then none else some f.calls) = some more ↔ _
  rw [L.lookup_funcs]
  cases hf : L.function name with
  | none =>
    exact iff_of_false (Option.some_ne_none more).symm fun h => h.2.elim fun f hf => Option.some_ne_none f hf.1.symm
  | some f =>
    have hstops : L.Stops name ↔ f.disasm.indirect = true := by
      rw [Func.indirect_iff]
      refine ⟨fun h => h f hf, fun h g hg => ?_⟩
      rw [hf] at hg
      exact Option.some.inj hg ▸ h
    show (if f.disasm.indirect then none else some f.disasm.calls) = some more ↔ _
    rw [hstops]
    by_cases hindirect : f.disasm.indirect = true
    · rw [if_pos hindirect]
      exact iff_of_false (Option.some_ne_none more).symm fun h => h.1 hindirect
    · rw [if_neg hindirect, and_iff_right hindirect]
      refine ⟨fun h => ⟨f, rfl, Option.some.inj h⟩, ?_⟩
      rintro ⟨g, hg, hmore⟩
      rw [Option.some.inj hg, hmore]

theorem Listing.edge_iff (L : Listing) (a b : List Char) : (callGraph L.funcs).Edge a b ↔ L.Follows a b := by
  constructor
  · rintro ⟨more, hnext, hb⟩
    obtain ⟨hgoes, f, hf, hcalls⟩ := (L.next_iff a more).mp hnext
    rw [← hcalls] at hb
    exact ⟨hgoes, f, hf, Func.mem_calls.mp hb⟩
  · rintro ⟨hgoes, f, hf, hb⟩
    exact ⟨f.disasm.calls, (L.next_iff a _).mpr ⟨hgoes, f, hf, rfl⟩, Func.mem_calls.mpr hb⟩

theorem Listing.reach_iff (L : Listing) (a b : List Char) :
    (callGraph L.funcs).Reach a b ↔ Relation.ReflTransGen L.Follows a b := by
  have hedges : (callGraph L.funcs).Edge = L.Follows := by
    funext a b
    exact propext (L.edge_iff a b)
  rw [Worklist.Graph.Reach, hedges]

theorem Listing.next_none_iff (L : Listing) (name : List Char) :
    (callGraph L.funcs).next name = none ↔ L.Stops name := by
  constructor
  · intro hnone f hf
    by_contra hgoes
    have hnext := (L.next_iff name f.disasm.calls).mpr ⟨fun hstops => hgoes (hstops f hf), f, hf, rfl⟩
    exact Option.some_ne_none _ (hnext.symm.trans hnone)
  · intro hstops
    cases hnext : (callGraph L.funcs).next name with
    | none => rfl
    | some more => exact absurd hstops ((L.next_iff name more).mp hnext).1

theorem Listing.findEntry_funcs (L : Listing) (entries : List (List Char)) :
    findEntry L.funcs entries = L.entry entries := by
  rw [findEntry, Listing.entry, Listing.funcs, List.map_map]
  rfl

/-- What is gathered from some functions. -/
theorem foldl_gather (funcs : List (List Char × DisasmFunc)) (entry : List Char) (order : List (List Char))
    (acc : Finset Slot × Bool) :
    (∀ s, s ∈ (order.foldl (gather funcs entry) acc).1 ↔
        s ∈ acc.1 ∨ ∃ name ∈ order, ∃ f, lookup funcs name = some f ∧ s ∈ f.regs ∧ 1 ≤ s) ∧
      ((order.foldl (gather funcs entry) acc).2 = true ↔ acc.2 = true ∨ entry ∈ order) := by
  induction order generalizing acc with
  | nil => simp only [List.foldl_nil, List.not_mem_nil, false_and, exists_false, or_false, implies_true, and_self]
  | cons name order ih =>
    obtain ⟨hregs, hfound⟩ := ih (gather funcs entry acc name)
    have hone : ∀ s, s ∈ ((lookup funcs name).map fun f => f.regs.filter (1 ≤ ·)).getD ∅ ↔
        ∃ f, lookup funcs name = some f ∧ s ∈ f.regs ∧ 1 ≤ s := by
      intro s
      cases lookup funcs name with
      | none => exact iff_of_false (Finset.notMem_empty s) fun ⟨f, hf, _⟩ => Option.some_ne_none f hf.symm
      | some f =>
        rw [Option.map_some, Option.getD_some, Finset.mem_filter]
        exact ⟨fun h => ⟨f, rfl, h⟩, fun ⟨g, hg, h⟩ => Option.some.inj hg ▸ h⟩
    refine ⟨fun s => ?_, ?_⟩
    · rw [List.foldl_cons, hregs, gather, Finset.mem_union, hone, List.exists_mem_cons_iff, or_assoc]
    · rw [List.foldl_cons, hfound, gather, Bool.or_eq_true, decide_eq_true_eq, List.mem_cons, or_assoc, eq_comm (a := name)]

/-- `count_registers` gives up where a name that it follows stops it, and else counts what the functions spell
that it follows. -/
theorem Listing.countRegisters_eq (L : Listing) {entries : List (List Char)} {a : List Char}
    (ha : L.entry entries = some a) :
    ((∃ b, Relation.ReflTransGen L.Follows a b ∧ L.Stops b) → countRegisters L.funcs entries = -1) ∧
      ((¬∃ b, Relation.ReflTransGen L.Follows a b ∧ L.Stops b) →
        countRegisters L.funcs entries = (L.read a).ncard) := by
  have hnone : Worklist.search (callGraph L.funcs) (gather L.funcs a) [a] [] (∅, false) = none ↔
      ∃ b, Relation.ReflTransGen L.Follows a b ∧ L.Stops b := by
    simp only [Worklist.search_none_iff, L.reach_iff, L.next_none_iff]
  rw [countRegisters, L.findEntry_funcs, ha]
  show (_ → countSeen (Worklist.search (callGraph L.funcs) (gather L.funcs a) [a] [] (∅, false)) = -1) ∧
    (_ → countSeen (Worklist.search (callGraph L.funcs) (gather L.funcs a) [a] [] (∅, false)) = _)
  cases hsearch : Worklist.search (callGraph L.funcs) (gather L.funcs a) [a] [] (∅, false) with
  | none => exact ⟨fun _ => rfl, fun hgoes => absurd (hnone.mp hsearch) hgoes⟩
  | some r =>
    have hgoes : ¬∃ b, Relation.ReflTransGen L.Follows a b ∧ L.Stops b := fun h =>
      Option.some_ne_none r (hsearch.symm.trans (hnone.mpr h))
    refine ⟨fun h => absurd h hgoes, fun _ => ?_⟩
    obtain ⟨order, -, horder, rfl⟩ := Worklist.search_some hsearch
    obtain ⟨hregs, hfound⟩ := foldl_gather L.funcs a order (∅, false)
    have hentry : (order.foldl (gather L.funcs a) (∅, false)).2 = true := hfound.mpr (.inr ((horder a).mpr .refl))
    rw [countSeen, if_pos hentry, Nat.cast_inj, ← Set.ncard_coe_finset]
    congr 1
    ext s
    rw [Finset.mem_coe, Finset.mem_filter, hregs]
    constructor
    · rintro ⟨hs, -⟩
      obtain ⟨b, hb, d, hd, hs, -⟩ := hs.resolve_left (Finset.notMem_empty s)
      rw [L.lookup_funcs] at hd
      obtain ⟨f, hf, rfl⟩ := Option.map_eq_some_iff.mp hd
      exact ⟨b, (L.reach_iff a b).mp ((horder b).mp hb), f, hf, Func.mem_regs.mp hs⟩
    · rintro ⟨b, hb, f, hf, hs⟩
      obtain ⟨i, hi, hmem⟩ := hs
      have hpos : 1 ≤ s := Fin.one_le_of_ne_zero (mem_slotsOf.mp hmem).1.ne'
      refine ⟨.inr ⟨b, (horder b).mpr ((L.reach_iff a b).mpr hb), f.disasm, ?_, Func.mem_regs.mpr ⟨i, hi, hmem⟩, hpos⟩, hpos⟩
      rw [L.lookup_funcs, hf, Option.map_some]

/-- A listing is counted rightly if a kernel's calls lead to a name where `count_registers` stops, or if what
the kernel reaches is plain and there are as many registers which only the functions name that are not followed
as there are which no instruction names but a symbol spells. -/
def Listing.Followed (L : Listing) (entries : List (List Char)) : Prop :=
  ∀ name, L.entry entries = some name →
    (∃ b, Relation.ReflTransGen L.Follows name b ∧ L.Stops b) ∨
      (∀ b, Relation.ReflTransGen L.Goes (L.place name) b → L.Plain b) ∧
        (L.named (L.place name) \ L.read name).ncard = (L.read name \ L.named (L.place name)).ncard

/-- The count of a kernel's registers is what it says exactly if its listing can be followed by the calls. -/
theorem countRegisters_measures_iff (L : Listing) (entries : List (List Char)) :
    L.Measures entries (countRegisters (parseDisasm L.text) entries) ↔ L.Followed entries := by
  rw [parseDisasm_text]
  cases hentry : L.entry entries with
  | none =>
    have hcount : countRegisters L.funcs entries = -1 := by rw [countRegisters, L.findEntry_funcs, hentry]
    refine iff_of_true (.inl hcount) fun name hname => ?_
    exact absurd (hentry.symm.trans hname) (Option.some_ne_none name).symm
  | some a =>
    obtain ⟨hstops, hgoes⟩ := L.countRegisters_eq hentry
    by_cases hstop : ∃ b, Relation.ReflTransGen L.Follows a b ∧ L.Stops b
    · refine iff_of_true (.inl (hstops hstop)) fun name hname => ?_
      rw [← Option.some.inj (hentry.symm.trans hname)]
      exact .inl hstop
    · have hcount : countRegisters L.funcs entries = (L.read a).ncard := hgoes hstop
      have hnumber : ((L.read a).ncard : ℤ) = (L.named (L.place a)).ncard ↔
          (L.named (L.place a) \ L.read a).ncard = (L.read a \ L.named (L.place a)).ncard := by
        rw [Nat.cast_inj, eq_comm]
        exact Set.ncard_eq_ncard_iff_ncard_sdiff_eq_ncard_sdiff
      constructor
      · rintro (hunknown | ⟨name, hname, hplain, hn⟩) other hother
        · exact absurd (hcount.symm.trans hunknown) (by omega)
        · obtain rfl : a = name := Option.some.inj (hentry.symm.trans hname)
          obtain rfl : a = other := Option.some.inj (hentry.symm.trans hother)
          exact .inr ⟨hplain, hnumber.mp (hcount.symm.trans hn)⟩
      · intro h
        obtain ⟨hplain, hsame⟩ := (h a hentry).resolve_left hstop
        exact .inr ⟨a, hentry, hplain, hcount.trans (hnumber.mpr hsame)⟩

/-- A kernel whose only instruction jumps to another function, which names three registers and returns. -/
def tailInstr : Instr :=
  { address := "180000100".toList
    bytes := "0080006f".toList
    gap := "     \t".toList
    mnemonic := "j".toList
    operands := [.other "0x180000108".toList]
    target := some ⟨some 1, "scale".toList, []⟩ }

def scaleInstr : Instr :=
  { address := "180000108".toList
    bytes := "007302b3".toList
    gap := "     \t".toList
    mnemonic := "add".toList
    operands := [.word "t0".toList, .word "t1".toList, .word "t2".toList]
    target := none }

def retInstr : Instr :=
  { address := "18000010c".toList
    bytes := "00008067".toList
    gap := "     \t".toList
    mnemonic := "ret".toList
    operands := []
    target := none }

def tailCall : Listing where
  preamble := ["axpy.elf:\tfile format elf64-littleriscv".toList]
  functions :=
    [⟨"0000000180000100".toList, "axpy".toList, [.instr tailInstr, .other []]⟩,
      ⟨"0000000180000108".toList, "scale".toList, [.instr scaleInstr, .instr retInstr]⟩]
  no_header := by decide
  wellFormed := by decide

/-- What it jumps to is not followed: no register is counted. -/
theorem tailCall_not_measures :
    ¬tailCall.Measures ["__vx_kentry_axpy".toList, "axpy".toList]
      (countRegisters (parseDisasm tailCall.text) ["__vx_kentry_axpy".toList, "axpy".toList]) := by
  have hentry : tailCall.entry ["__vx_kentry_axpy".toList, "axpy".toList] = some "axpy".toList := by decide
  have hfunction : tailCall.function "axpy".toList = some ⟨"0000000180000100".toList, "axpy".toList, [.instr tailInstr, .other []]⟩ := by
    decide
  have hinstr : ∀ f, tailCall.function "axpy".toList = some f → ∀ i ∈ f.instrs, i = tailInstr := by
    intro f hf i hi
    rw [← Option.some.inj (hfunction.symm.trans hf)] at hi
    exact List.mem_singleton.mp hi
  have honly : ∀ b, Relation.ReflTransGen tailCall.Follows "axpy".toList b → b = "axpy".toList := by
    intro b hb
    rcases Relation.ReflTransGen.cases_head hb with rfl | ⟨c, ⟨-, f, hf, i, hi, hjal, -⟩, -⟩
    · rfl
    · rw [hinstr f hf i hi] at hjal
      exact absurd hjal (by decide)
  have hread : tailCall.read "axpy".toList = ∅ := by
    apply Set.eq_empty_of_forall_notMem
    rintro s ⟨b, hb, f, hf, i, hi, hs⟩
    rw [honly b hb] at hf
    rw [hinstr f hf i hi] at hs
    have hnone : slotsOf tailInstr.words = ∅ := by decide
    rw [hnone] at hs
    exact Finset.notMem_empty s hs
  have hgoes : ¬∃ b, Relation.ReflTransGen tailCall.Follows "axpy".toList b ∧ tailCall.Stops b := by
    rintro ⟨b, hb, hstops⟩
    rw [honly b hb] at hstops
    obtain ⟨i, hi, hjal⟩ := hstops _ hfunction
    rw [List.mem_singleton.mp hi] at hjal
    rcases hjal with hjalr | ⟨hjal, -⟩
    · exact absurd hjalr (by decide)
    · exact absurd hjal (by decide)
  have hcount := (tailCall.countRegisters_eq hentry).2 hgoes
  rw [hread, Set.ncard_empty] at hcount
  rw [parseDisasm_text]
  rintro (hunknown | ⟨name, hname, -, hn⟩)
  · exact absurd (hcount.symm.trans hunknown) (by decide)
  · obtain rfl := Option.some.inj (hentry.symm.trans hname)
    have hplace : tailCall.place "axpy".toList = 0 := by decide
    have hstep : tailCall.Goes 0 1 := ⟨_, rfl, tailInstr, by decide, by unfold Instr.Direct; decide, _, rfl, rfl⟩
    have hnamed : (5 : Slot) ∈ tailCall.named 0 :=
      ⟨1, .single hstep, _, rfl, scaleInstr, by decide, by decide, .word "t0".toList, by decide, by decide⟩
    have hsome : (tailCall.named 0).ncard = 0 := by
      rw [hplace] at hn
      exact Nat.cast_inj.mp (hn.symm.trans hcount)
    rw [Set.ncard_eq_zero] at hsome
    exact Set.notMem_empty _ (hsome ▸ hnamed)

end Grxcp.Grxcc
