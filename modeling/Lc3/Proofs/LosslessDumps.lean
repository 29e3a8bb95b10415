import Lc3.Proofs.AddressSyntax
import Lc3.Proofs.Dumps
import Lc3.Proofs.Layouts

/-! # Minimal dumps lose nothing

The lines of a minimal dump have the same lengths for all machines, so that dumps of the registers
can only be equal line by line, and a line tells its value (`renderAll_registers_inj`). A line that
shows a word of memory has a blank between its address and the word; with an equals sign there it is
a poke that writes the word back (`parse_pokeText`), and the pokes of a dump put back all that it
shows. -/

namespace Lc3
open Text (IsEntry)

namespace Text.IsEntry
variable {cs : List Char}

theorem blank_notMem (h : IsEntry cs) : ' ' ∉ cs :=
  fun hc => h.2 _ hc (by decide)

theorem filter_newline (h : IsEntry cs) : cs.filter (· ≠ '\n') = cs := by
  rw [List.filter_eq_self]
  intro c hc
  exact decide_eq_true fun heq : c = '\n' => h.newline_notMem (heq ▸ hc)

theorem map_blank (h : IsEntry cs) : cs.map (fun c => if c = ' ' then '=' else c) = cs := by
  refine (List.map_congr_left fun c hc => ?_).trans (List.map_id cs)
  exact if_neg fun heq : c = ' ' => h.blank_notMem (heq ▸ hc)

end Text.IsEntry

theorem length_binaryText {n : Nat} (v : BitVec n) : (binaryText v).length = n := by
  rw [binaryText, String.length_ofList, Word.length_binaryDigits]

theorem binaryText_inj {n : Nat} {v w : BitVec n} : binaryText v = binaryText w ↔ v = w := by
  refine ⟨fun h => ?_, congrArg binaryText⟩
  have hdigits : binaryDigits v = binaryDigits w := String.ofList_injective h
  refine BitVec.eq_of_getMsbD_eq fun i hi => ?_
  have hdigit := List.map_inj_left.1 hdigits i (List.mem_range.2 hi)
  cases hv : v.getMsbD i <;> cases hw : w.getMsbD i <;> simp [hv, hw] at hdigit ⊢

theorem Condition.mask_inj {c d : Condition} : c.mask = d.mask ↔ c = d := by
  cases c <;> cases d <;> simp [mask]

namespace Terminal

/-- Texts that are cut at the same places are equal if and only if their pieces are. -/
theorem join_eq_join_iff {ps qs : List String}
    (h : ps.map String.length = qs.map String.length) :
    String.join ps = String.join qs ↔ ps = qs := by
  refine ⟨fun hjoin => ?_, congrArg String.join⟩
  have hflatten : (ps.map String.toList).flatten = (qs.map String.toList).flatten := by
    simpa [List.flatMap_def] using congrArg String.toList hjoin
  have hlengths : (ps.map String.toList).map List.length =
      (qs.map String.toList).map List.length := by
    rwa [List.map_map, List.map_map]
  exact List.map_injective_iff.2 (fun _ _ => String.toList_inj.1)
    (List.eq_iff_flatten_eq.2 ⟨hflatten, hlengths⟩)

namespace Dump

/-! ### Registers -/

theorem minimalRegisters_eq (m : Machine) : minimalRegisters m =
    (List.finRange 8).map (fun r => "R" ++ r.val.repr ++ " " ++ binaryText (m.readRegister r) ++
      "\n") ++ ["PC " ++ binaryText m.pc ++ "\n", "CC " ++ binaryText m.condition.mask ++ "\n"] :=
  rfl

variable {m n : Machine}

theorem map_length_minimalRegisters (m n : Machine) :
    (minimalRegisters m).map String.length = (minimalRegisters n).map String.length := by
  simp [minimalRegisters_eq, length_binaryText, Function.comp_def]

theorem minimalRegisters_inj : minimalRegisters m = minimalRegisters n ↔
    (∀ r, m.readRegister r = n.readRegister r) ∧ m.pc = n.pc ∧ m.condition = n.condition := by
  rw [minimalRegisters_eq, minimalRegisters_eq]
  constructor
  · intro h
    obtain ⟨hregisters, hcontrol⟩ := List.append_inj h (by simp)
    simp only [List.map_inj_left, String.append_left_inj, String.append_right_inj, binaryText_inj,
      List.mem_finRange, forall_const] at hregisters
    simp only [List.cons.injEq, String.append_left_inj, String.append_right_inj, binaryText_inj,
      Condition.mask_inj, and_true] at hcontrol
    exact ⟨hregisters, hcontrol⟩
  · rintro ⟨hregisters, hpc, hcondition⟩
    simp only [hregisters, hpc, hcondition]

/-! ### Memory -/

/-- The line without the newline at its end, and with an equals sign for its blank. -/
def pokeText (line : String) : String :=
  String.ofList ((line.toList.filter (· ≠ '\n')).map fun c => if c = ' ' then '=' else c)

section
variable {before after : String} (hbefore : IsEntry before.toList) (hafter : IsEntry after.toList)
include hbefore hafter

theorem pokeText_line : pokeText (before ++ " " ++ after ++ "\n") = before ++ "=" ++ after := by
  rw [pokeText, ← String.toList_inj]
  simp only [String.toList_append, String.toList_ofList, List.filter_append, List.map_append,
    hbefore.filter_newline, hafter.filter_newline, hbefore.map_blank, hafter.map_blank]
  simp

theorem count_line : (before ++ " " ++ after ++ "\n").toList.count ' ' = 1 ∧
    (before ++ " " ++ after ++ "\n").toList.count '\n' = 1 := by
  simp [String.toList_append, List.count_eq_zero_of_not_mem, hbefore.newline_notMem,
    hafter.newline_notMem, hbefore.blank_notMem, hafter.blank_notMem]

end

theorem mem_address {a : Word} {c : Char} (h : c ∈ ("x" ++ a.toUpperHex).toList) :
    c ∈ 'x' :: hexSymbols := by
  rw [String.toList_append, Word.toUpperHex_eq_numeral] at h
  rcases List.mem_append.1 h with h | h
  · rw [List.mem_singleton.1 h]
    exact List.mem_cons_self
  · exact List.mem_cons_of_mem _ (mem_symbols_of_mem_numeral (by decide) h)

theorem isEntry_address (a : Word) : IsEntry ("x" ++ a.toUpperHex).toList := by
  have hsymbols : ∀ c ∈ 'x' :: hexSymbols, c.toNat ∉ Text.whiteSpace := by
    simp [hexSymbols, Text.whiteSpace]
  exact ⟨by simp, fun c hc => hsymbols c (mem_address hc)⟩

/-- An address and a word with an equals sign between them, as they are shown, are a poke. -/
theorem parse_shown (a w : Word) :
    Poke.parse ("x" ++ a.toUpperHex ++ "=" ++ w.toBinary) = .ok ⟨a, w⟩ := by
  have hequals : '=' ∉ 'x' :: hexSymbols := by decide
  refine Poke.parse_eq_ok_iff.2 ⟨("x" ++ a.toUpperHex).toList, w.toBinary.toList,
    ⟨?_, fun hc => hequals (mem_address hc)⟩, ?_, (Image.isEntry_toBinary w).strip_eq⟩
  · rw [String.toList_append, String.toList_append, List.append_assoc]
    rfl
  · rw [(isEntry_address a).strip_eq, String.ofList_toList]
    exact Address.parse_upperHex a

theorem memory_foldl_apply {addresses : List Word} {n : Machine}
    (h : ∀ a, a ∉ addresses → n.readMemory a = m.readMemory a) :
    ((addresses.map fun a => (⟨a, m.readMemory a⟩ : Poke)).foldl Poke.apply n).memory =
      m.memory := by
  induction addresses generalizing n with
  | nil => exact Memory.ext fun a => h a List.not_mem_nil
  | cons b addresses ih =>
    rw [List.map_cons, List.foldl_cons]
    refine ih fun a ha => ?_
    rw [Poke.apply, Machine.readMemory_writeMemory]
    split
    next hba => exact congrArg m.readMemory hba
    next hba => exact h a (by simp [ha, Ne.symm hba])

end Dump

section
variable {d : Display} (hd : d.minimal = true) (channel : Channel)
include hd

theorem renderAll_registers_inj {m n : Machine} :
    d.renderAll channel (Dump.registers d.minimal m) =
      d.renderAll channel (Dump.registers d.minimal n) ↔
    (∀ r, m.readRegister r = n.readRegister r) ∧ m.pc = n.pc ∧ m.condition = n.condition := by
  rw [hd, Dump.registers, Dump.registers, if_pos rfl, if_pos rfl,
    d.renderAll_of_minimal channel hd (Dump.escape_notMem_of_mem_minimalRegisters m),
    d.renderAll_of_minimal channel hd (Dump.escape_notMem_of_mem_minimalRegisters n),
    join_eq_join_iff (Dump.map_length_minimalRegisters m n), Dump.minimalRegisters_inj]

theorem renderAll_memory (m : Machine) (a : Word) :
    d.renderAll channel (Dump.memory d.minimal m a) =
      "x" ++ a.toUpperHex ++ " " ++ (m.readMemory a).toBinary ++ "\n" := by
  rw [hd, d.renderAll_of_minimal channel hd (Dump.escape_notMem_of_mem_minimalMemory m a),
    Dump.minimalMemory_eq, String.join_cons, String.join_nil, String.append_empty]

theorem parse_pokeText (m : Machine) (a : Word) :
    Poke.parse (Dump.pokeText (d.renderAll channel (Dump.memory d.minimal m a))) =
      .ok ⟨a, m.readMemory a⟩ := by
  rw [renderAll_memory hd, Dump.pokeText_line (Dump.isEntry_address a) (Image.isEntry_toBinary _),
    Dump.parse_shown]

/-- In minimal mode only equal registers are shown alike, and the lines of a dump of memory, with an
equals sign in place of the blank, are pokes that give another machine the memory that is shown. -/
theorem minimal_dumps_are_lossless (m : Machine) :
    (∀ n : Machine, d.renderAll channel (Dump.registers d.minimal m) =
        d.renderAll channel (Dump.registers d.minimal n) ↔
      (∀ r, m.readRegister r = n.readRegister r) ∧ m.pc = n.pc ∧ m.condition = n.condition) ∧
    (∀ a, let line := d.renderAll channel (Dump.memory d.minimal m a)
      line.toList.count ' ' = 1 ∧ line.toList.count '\n' = 1 ∧
        line.toList.getLast? = some '\n') ∧
    ∀ addresses : List Word,
      let lines := addresses.map fun a => d.renderAll channel (Dump.memory d.minimal m a)
      ∃ pokes, List.Forall₂ (fun line p => Poke.parse (Dump.pokeText line) = .ok p) lines pokes ∧
        ∀ n : Machine, (∀ a, a ∉ addresses → n.readMemory a = m.readMemory a) →
          (pokes.foldl Poke.apply n).memory = m.memory := by
  refine ⟨fun n => renderAll_registers_inj hd channel, fun a => ?_, fun addresses => ?_⟩
  · obtain ⟨hblank, hnewline⟩ := Dump.count_line (Dump.isEntry_address a)
      (Image.isEntry_toBinary (m.readMemory a))
    rw [← renderAll_memory hd channel] at hblank hnewline
    refine ⟨hblank, hnewline, ?_⟩
    rw [renderAll_memory hd channel, String.toList_append]
    exact List.getLast?_concat
  · refine ⟨addresses.map fun a => ⟨a, m.readMemory a⟩, ?_, fun n => Dump.memory_foldl_apply⟩
    rw [List.forall₂_map_left_iff, List.forall₂_map_right_iff, List.forall₂_same]
    exact fun a _ => parse_pokeText hd channel m a

end

/-- A dump of the last address, of another, and of the last one again. -/
theorem pokes_of_repeated_address :
    let d : Display := { minimal := true }
    let m : Machine := (Machine.initial.writeMemory 0xFFFF 5).writeMemory 2 7
    let addresses : List Word := [0xFFFF, 2, 0xFFFF]
    let lines := ["xFFFF 0000000000000101\n", "x0002 0000000000000111\n",
      "xFFFF 0000000000000101\n"]
    (d.minimal = true ∧ ∀ a, a ∉ addresses → Machine.initial.readMemory a = m.readMemory a) ∧
    d.renderAll .result (Dump.registers d.minimal m) =
      d.renderAll .result (Dump.registers d.minimal .initial) ∧
    ∃ pokes, List.Forall₂ (fun line p => Poke.parse (Dump.pokeText line) = .ok p) lines pokes ∧
      (pokes.foldl Poke.apply .initial).memory = m.memory := by
  intro d m addresses lines
  have hlast : m.readMemory 0xFFFF = 5 := by simp [m]
  have hother : m.readMemory 2 = 7 := by simp [m]
  have hsame : ∀ a, a ∉ addresses → Machine.initial.readMemory a = m.readMemory a := by
    intro a ha
    obtain ⟨hne, hne', -⟩ : a ≠ 0xFFFF ∧ a ≠ 2 ∧ a ≠ 0xFFFF := by simpa [addresses] using ha
    rw [Machine.readMemory_writeMemory, if_neg (Ne.symm hne'), Machine.readMemory_writeMemory,
      if_neg (Ne.symm hne)]
  have hlines : (addresses.map fun a => d.renderAll .result (Dump.memory d.minimal m a)) =
      lines := by
    simp only [addresses, List.map_cons, List.map_nil, renderAll_memory (d := d) rfl, hlast, hother]
    decide
  obtain ⟨hregisters, -, hmemory⟩ := minimal_dumps_are_lossless (d := d) rfl .result m
  obtain ⟨pokes, hpokes, hrestore⟩ := hmemory addresses
  rw [hlines] at hpokes
  exact ⟨⟨rfl, hsame⟩, (hregisters .initial).2 ⟨fun _ => rfl, rfl, rfl⟩, pokes, hpokes,
    hrestore .initial hsame⟩

end Terminal
end Lc3
