import Lc3.Proofs.Escapes
import Lc3.Proofs.Numerals
import Lc3.Terminal.Dump

/-! # Pieces of dumps

Every piece of text that shows a machine or a completed instruction is closed: it ends each escape
sequence that it begins. Minimal dumps and the names of opcodes have none at all. -/

namespace Lc3.Terminal.Dump

theorem isClosed_of_mem_integer (v : Word) : ∀ p ∈ integer v, IsClosed p := by
  simp only [integer, List.forall_mem_cons]
  refine ⟨?_, ?_, ?_, List.forall_mem_nil _⟩
  · exact (isClosed_of_notMem (escape_notMem_toBinary v)).append (by decide)
  · exact isClosed_around (by decide) (escape_notMem_toHex v) (by decide)
  · exact isClosed_of_notMem (escape_notMem_alignRight (escape_notMem_intRepr v.toInt) 6)

variable (m : Machine)

theorem escape_notMem_of_mem_minimalRegisters :
    ∀ p ∈ minimalRegisters m, escape ∉ p.toList := by
  simp only [minimalRegisters, List.forall_mem_append, List.forall_mem_map, List.forall_mem_cons]
  refine ⟨fun r _ => ?_, ?_, ?_, List.forall_mem_nil _⟩
  · have hname : escape ∉ s!"R{r.val} ".toList :=
      escape_notMem_around (by decide) (escape_notMem_natRepr r) (by decide)
    exact escape_notMem_around hname (escape_notMem_toBinary _) (by decide)
  · exact escape_notMem_around (by decide) (escape_notMem_toBinary m.pc) (by decide)
  · exact escape_notMem_around (by decide) (escape_notMem_binaryText m.condition.mask) (by decide)

theorem minimalMemory_eq (a : Word) :
    memory true m a = ["x" ++ a.toUpperHex ++ " " ++ (m.readMemory a).toBinary ++ "\n"] := rfl

theorem escape_notMem_of_mem_minimalMemory (a : Word) :
    ∀ p ∈ memory true m a, escape ∉ p.toList := by
  refine List.forall_mem_singleton.2 ?_
  have haddress : escape ∉ s!"x{a.toUpperHex} ".toList :=
    escape_notMem_around (by decide) (escape_notMem_toUpperHex a) (by decide)
  exact escape_notMem_around haddress (escape_notMem_toBinary _) (by decide)

theorem isClosed_of_mem_registerRow (r : Register) : ∀ p ∈ registerRow m r, IsClosed p := by
  simp only [registerRow, List.forall_mem_append, List.forall_mem_cons]
  refine ⟨⟨⟨by decide, ?_, List.forall_mem_nil _⟩, isClosed_of_mem_integer _⟩, by decide,
    List.forall_mem_nil _⟩
  exact isClosed_around (by decide) (escape_notMem_natRepr r) (by decide)

theorem isClosed_of_mem_controlRow : ∀ p ∈ controlRow m, IsClosed p := by
  have hmode : ∀ b : Bool,
      escape ∉ (Text.alignLeft 10 (if b then "supervisor" else "user")).toList := by
    decide
  simp only [controlRow, List.forall_mem_cons]
  refine ⟨by decide, ?_, ?_, ?_, by decide, List.forall_mem_nil _⟩
  · exact .append (by decide) (isClosed_of_notMem (escape_notMem_toHex m.pc))
  · exact .append (by decide) (isClosed_of_notMem (escape_notMem_binaryText m.condition.mask))
  · exact .append (by decide) (isClosed_of_notMem (hmode m.supervisor))

theorem escape_notMem_rule : escape ∉ rule.toList := by
  unfold rule
  rw [String.toList_ofList]
  exact fun h => absurd (List.eq_of_mem_replicate h) (by decide)

theorem isClosed_of_mem_registers (minimal : Bool) : ∀ p ∈ registers minimal m, IsClosed p := by
  cases minimal with
  | true => exact fun p hp => isClosed_of_notMem (escape_notMem_of_mem_minimalRegisters m p hp)
  | false =>
    show ∀ p ∈ registerTable m, IsClosed p
    simp only [registerTable, List.forall_mem_append, List.forall_mem_flatMap,
      List.forall_mem_cons]
    refine ⟨⟨⟨⟨?_, by decide +kernel, List.forall_mem_nil _⟩, fun r _ => ?_⟩, ?_⟩, ?_,
      List.forall_mem_nil _⟩
    · exact isClosed_around (by decide) escape_notMem_rule (by decide)
    · exact isClosed_of_mem_registerRow m r
    · exact isClosed_of_mem_controlRow m
    · exact isClosed_around (by decide) escape_notMem_rule (by decide)

theorem isClosed_of_mem_memory (minimal : Bool) (a : Word) :
    ∀ p ∈ memory minimal m a, IsClosed p := by
  cases minimal with
  | true => exact fun p hp => isClosed_of_notMem (escape_notMem_of_mem_minimalMemory m a p hp)
  | false =>
    show ∀ p ∈ [s!"\x1b[1mx{a.toUpperHex}\x1b[0m = "] ++ integer (m.readMemory a) ++ ["\n"],
      IsClosed p
    simp only [List.forall_mem_append, List.forall_mem_singleton]
    refine ⟨⟨?_, isClosed_of_mem_integer _⟩, by decide⟩
    exact isClosed_around (by decide) (escape_notMem_toUpperHex a) (by decide)

theorem escape_notMem_name (o : Opcode) : escape ∉ o.name.toList := by
  cases o <;> decide

theorem isClosed_cycle (c : Cycle) : IsClosed (cycle c) := by
  have haddress : IsClosed s!"x{c.address.toUpperHex}  " :=
    isClosed_around (by decide) (escape_notMem_toUpperHex c.address) (by decide)
  have hword : IsClosed s!"x{c.address.toUpperHex}  {c.word.toBinary}  " :=
    isClosed_around haddress (escape_notMem_toBinary c.word) (by decide)
  exact isClosed_around hword (escape_notMem_name c.instruction.opcode) (by decide)

end Lc3.Terminal.Dump
