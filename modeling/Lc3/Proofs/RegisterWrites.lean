import Lc3.Proofs.Lifecycle

/-! # What register writes leave behind

A session writes registers by its own operations and by the instructions that it runs. `writesSince`
lists these writes in order; those of instructions are taken from the instruction table, so that an
opcode which writes a register without setting the condition code, or the other way round, could not
agree with the list. `Shows` is the invariant: before the first write the registers are zero and the
condition code is unset, and from then on the last write shows in its register and in the condition
code. `condition_follows_writes` states it for whole sessions, together with what it means for
branches. -/

namespace Lc3
open Instruction (execute)

/-! ### Branches -/

/-- The word of a branch on the signs in `nzp`. -/
def branchWord (nzp : BitVec 3) (offset : BitVec 9) : Word :=
  nzp.setWidth 16 <<< 9 ||| offset.setWidth 16

namespace Machine

/-- A branch on the signs in `nzp` is taken, wherever it leads. -/
def TakesBranch (m : Machine) (nzp : BitVec 3) : Prop :=
  ∀ offset, execute m (branchWord nzp offset) =
    .ok (.proceed, m.jump (m.pc + offset.signExtend 16))

/-- A branch on the signs in `nzp` does nothing. -/
def PassesBranch (m : Machine) (nzp : BitVec 3) : Prop :=
  ∀ offset, execute m (branchWord nzp offset) = .ok (.proceed, m)

end Machine

section
variable (nzp : BitVec 3) (offset : BitVec 9)

theorem ofWord_branchWord : Opcode.ofWord (branchWord nzp offset) = .br := by
  have hbits : (branchWord nzp offset).extractLsb' 12 4 = 0 := by
    ext i hi
    have hnzp := nzp.getLsbD_of_ge (12 + i - 9) (by omega)
    have hoffset := offset.getLsbD_of_ge (12 + i) (by omega)
    simp [branchWord, hnzp, hoffset]
  rw [Opcode.ofWord, hbits]
  rfl

theorem mask_branchWord : (branchWord nzp offset).extractLsb' 9 3 = nzp := by
  ext i hi
  have hlt : 9 + i < 16 := by omega
  simp [branchWord, hlt, hi]

theorem offset_branchWord : (branchWord nzp offset).setWidth 9 = offset := by
  ext i hi
  simp [branchWord]

theorem decode_branchWord :
    Instruction.decode (branchWord nzp offset) = some (.br nzp (offset.signExtend 16)) := by
  rw [Instruction.decode, ofWord_branchWord]
  simp only [mask_branchWord, Word.signExtendLow, offset_branchWord]

theorem execute_branchWord (m : Machine) : execute m (branchWord nzp offset) =
    .ok (.proceed,
      if m.condition.meets nzp then m.jump (m.pc + offset.signExtend 16) else m) :=
  Instruction.execute_of_decodeFor_ok (Instruction.decodeFor_eq_ok_iff.2
    ⟨decode_branchWord nzp offset, fun h => by cases h⟩)

end

theorem Condition.meets_unset (nzp : BitVec 3) : unset.meets nzp = false := by
  revert nzp
  decide

theorem Condition.meets_complement {c : Condition} (h : c ≠ .unset) (nzp : BitVec 3) :
    c.meets (7 - nzp) = !c.meets nzp := by
  revert nzp
  cases c with
  | unset => exact absurd rfl h
  | _ => decide

namespace Machine
variable {m : Machine} {nzp : BitVec 3}

theorem takesBranch_of_meets (h : m.condition.meets nzp = true) : m.TakesBranch nzp := by
  intro offset
  rw [execute_branchWord, if_pos h]

theorem passesBranch_of_meets (h : m.condition.meets nzp = false) : m.PassesBranch nzp := by
  intro offset
  rw [execute_branchWord, if_neg (by simp [h])]

end Machine

/-! ### Writes -/

def Change.registerWrite? : Change → Option (Register × Word)
  | register r v => some (r, v)
  | nothing | memory .. | pc _ => none

/-- The register write of the next cycle. -/
def Simulator.registerWrite? (s : Simulator) : Option (Register × Word) :=
  s.fetch?.bind fun w => (Table.change (s.machine.jump (s.machine.pc + 1)) w).registerWrite?

namespace Operation

/-- The write to the register of that number, if there is one. -/
def writeTo (index : Nat) (v : Word) : List (Register × Word) :=
  match Machine.register? index with
  | .ok r => [(r, v)]
  | .error _ => []

def writeTextTo (index : Nat) (text : String) : List (Register × Word) :=
  match Word.ofBinary text with
  | .ok v => writeTo index v
  | .error _ => []

/-- The register writes of an operation, in order. A rejected text and a number that names no
register write none. -/
def registerWrites (fuel : Nat) (s : Simulator) : Operation → List (Register × Word)
  | writeRegisterText index text => writeTextTo index text
  | writeRegister index v => writeTo index v
  | execute w => (Table.change s.machine w).registerWrite?.toList
  | step | cycle => s.registerWrite?.toList
  | run => (s.stages fuel).flatMap (·.registerWrite?.toList)
  | stepMany n => (s.stages n).flatMap (·.registerWrite?.toList)
  | _ => []

/-- The register writes since the simulator was fresh, where `ws` are those before the operation. -/
def writesSince (fuel : Nat) (s : Simulator) (ws : List (Register × Word)) (op : Operation) :
    List (Register × Word) :=
  match op with
  | startOver source =>
    match Image.parse source with
    | .ok _ => []
    | .error _ => ws
  | op => ws ++ op.registerWrites fuel s

def allWritesSince (fuel : Nat) (s : Simulator) (ws : List (Register × Word)) :
    List Operation → List (Register × Word)
  | [] => ws
  | op :: ops =>
    match perform fuel s op with
    | none => ws
    | some (_, t) => allWritesSince fuel t (writesSince fuel s ws op) ops

end Operation

/-- What a machine shows of the register writes made to it. -/
structure Machine.Shows (m : Machine) (ws : List (Register × Word)) : Prop where
  fresh : ws = [] → m.condition = .unset ∧ ∀ r, m.readRegister r = 0
  last : ∀ r v, ws.getLast? = some (r, v) → m.condition = signOf v ∧ m.readRegister r = v

namespace Machine.Shows
variable {m n : Machine} {ws : List (Register × Word)} {s t : Simulator}

theorem initial : Machine.initial.Shows [] where
  fresh _ := ⟨rfl, fun r => by simp [Machine.initial, readRegister]⟩
  last _ _ h := by cases h

theorem congr (h : m.Shows ws) (hc : n.condition = m.condition)
    (hr : ∀ r, n.readRegister r = m.readRegister r) : n.Shows ws where
  fresh hws := by
    obtain ⟨hunset, hzero⟩ := h.fresh hws
    exact ⟨hc.trans hunset, fun r => (hr r).trans (hzero r)⟩
  last r v hlast := by
    obtain ⟨hsign, hv⟩ := h.last r v hlast
    exact ⟨hc.trans hsign, (hr r).trans hv⟩

theorem concat {r : Register} {v : Word} (hc : n.condition = signOf v)
    (hr : n.readRegister r = v) (ws : List (Register × Word)) : n.Shows (ws ++ [(r, v)]) where
  fresh h := by simp at h
  last q u hlast := by
    rw [List.getLast?_concat] at hlast
    cases hlast
    exact ⟨hc, hr⟩

theorem writeRegister (m : Machine) (r : Register) (v : Word) (ws : List (Register × Word)) :
    (m.writeRegister r v).Shows (ws ++ [(r, v)]) :=
  concat (ofWord_eq_signOf v) (by simp) ws

theorem keep (h : m.Shows ws) (hc : n.condition = m.condition)
    (hr : ∀ r, n.readRegister r = m.readRegister r) : n.Shows (ws ++ []) := by
  rw [List.append_nil]
  exact h.congr hc hr

theorem append_none (h : m.Shows ws) {write? : Option (Register × Word)} (hnone : write? = none) :
    m.Shows (ws ++ write?.toList) := by
  rw [hnone]
  exact h.keep rfl fun _ => rfl

/-- A change writes no register but the one that it names. -/
theorem made (h : m.Shows ws) {c : Change} (hc : c.Made m n) :
    n.Shows (ws ++ c.registerWrite?.toList) := by
  cases c with
  | nothing =>
    cases hc
    exact h.keep rfl fun _ => rfl
  | register r v =>
    obtain ⟨hr, -, -, hsign, -⟩ := hc
    exact concat hsign ((hr r).trans (if_pos rfl)) ws
  | memory a v =>
    obtain ⟨-, hr, -, hcondition, -⟩ := hc
    exact h.keep hcondition hr
  | pc target =>
    obtain ⟨-, hr, -, hcondition, -⟩ := hc
    exact h.keep hcondition hr

theorem registerWrite?_of_decodeFor_error {w : Word} {fault : Fault}
    (h : Instruction.decodeFor m w = .error fault) (n : Machine) :
    (Table.change n w).registerWrite? = none := by
  rw [Table.change_of_decodeFor_error h n]
  rfl

theorem effect (h : m.Shows ws) {w : Word} {i : Instruction}
    (hi : Instruction.decodeFor n w = .ok i) :
    (i.effect m).Shows (ws ++ (Table.change m w).registerWrite?.toList) := by
  rw [Table.change_eq (Instruction.decodeFor_eq_ok_iff.1 hi).1]
  exact h.made (i.made_effect m)

theorem cycle (h : s.machine.Shows ws) :
    s.cycle.2.machine.Shows (ws ++ s.registerWrite?.toList) := by
  rw [Simulator.registerWrite?, Simulator.fetch?]
  rcases s.cycle_eq_cases with ⟨hr, hc⟩ | ⟨hr, fault, hi, hc⟩ | ⟨hr, i, hi, hc⟩ <;> rw [hc, hr]
  · exact h.append_none rfl
  · exact h.append_none (registerWrite?_of_decodeFor_error hi _)
  · have hjump : (s.machine.jumpRelative 1).Shows ws := h.congr rfl fun _ => rfl
    exact hjump.effect hi

theorem advance (h : s.machine.Shows ws) (n : Nat) :
    (s.advance n).machine.Shows (ws ++ (s.stages n).flatMap (·.registerWrite?.toList)) := by
  let P (log : List Simulator) (t : Simulator) : Prop :=
    t.machine.Shows (ws ++ log.flatMap (·.registerWrite?.toList))
  have hstart : P [] s := h.keep rfl fun _ => rfl
  refine Simulator.advance_induct (P := P) (fun log t ht => ?_) n hstart
  show t.cycle.2.machine.Shows _
  rw [List.flatMap_append, List.flatMap_singleton, ← List.append_assoc]
  exact ht.cycle

theorem stepMany (h : s.machine.Shows ws) (n : Nat) :
    (s.stepMany n).2.machine.Shows (ws ++ (s.stages n).flatMap (·.registerWrite?.toList)) := by
  have hadvance : (s.stepMany n).2 = s.advance n := by
    cases hr : s.isRunning with
    | false =>
      rw [Simulator.stepMany, if_neg (by simp [hr]), Simulator.advance_of_not_isRunning n hr]
    | true => rw [Simulator.stepMany, if_pos hr]
  rw [hadvance]
  exact h.advance n

/-! ### Sessions -/

theorem writesSince_startOver (h : s.machine.Shows ws) (fuel : Nat) (source : String) :
    (Operation.withImage s source .ofImage).2.machine.Shows
      (Operation.writesSince fuel s ws (.startOver source)) := by
  cases hi : Image.parse source with
  | error failure =>
    rw [Operation.withImage_of_error hi, Operation.writesSince, hi]
    exact h
  | ok image =>
    rw [Operation.withImage_of_ok hi, Operation.writesSince, hi]
    exact initial.congr rfl fun _ => rfl

theorem readFrom (h : s.machine.Shows ws) {index : Nat} {f : Register → Reply} {reply : Reply}
    (hp : some (Operation.withRegister s index fun r => (f r, s)) = some (reply, t)) :
    t.machine.Shows (ws ++ []) := by
  rcases Nat.lt_or_ge index 8 with hlt | hge
  · rw [Operation.withRegister_of_lt hlt] at hp
    cases hp
    exact h.keep rfl fun _ => rfl
  · rw [Operation.withRegister_of_le hge] at hp
    cases hp
    exact h.keep rfl fun _ => rfl

theorem writeTo (h : s.machine.Shows ws) {fuel index : Nat} {v : Word} {reply : Reply}
    (hp : Operation.perform fuel s (.writeRegister index v) = some (reply, t)) :
    t.machine.Shows (ws ++ Operation.writeTo index v) := by
  rw [Operation.perform, Operation.withRegister] at hp
  rw [Operation.writeTo]
  cases hr : Machine.register? index with
  | error misuse =>
    rw [hr] at hp
    cases hp
    exact h.keep rfl fun _ => rfl
  | ok r =>
    rw [hr] at hp
    cases hp
    exact writeRegister s.machine r v ws

theorem writeTextTo (h : s.machine.Shows ws) {fuel index : Nat} {text : String} {reply : Reply}
    (hp : Operation.perform fuel s (.writeRegisterText index text) = some (reply, t)) :
    t.machine.Shows (ws ++ Operation.writeTextTo index text) := by
  rw [Operation.writeTextTo]
  cases hv : Word.ofBinary text with
  | error e =>
    rw [Operation.perform_writeRegisterText_of_error fuel s hv] at hp
    cases hp
    exact h.keep rfl fun _ => rfl
  | ok v =>
    rw [Operation.perform_writeRegisterText_of_ok fuel s hv] at hp
    exact h.writeTo hp

theorem perform (h : s.machine.Shows ws) {fuel : Nat} {op : Operation} {reply : Reply}
    (hp : Operation.perform fuel s op = some (reply, t)) :
    t.machine.Shows (op.writesSince fuel s ws) := by
  cases op with
  | startOver source =>
    rw [← (Prod.mk.inj (Option.some.inj hp)).2]
    exact h.writesSince_startOver fuel source
  | load | jump | jumpRelative | setSupervisor | writeMemory | renew | readMemoryText | readMemory
  | decode =>
    cases hp
    exact h.keep rfl fun _ => rfl
  | loadText source =>
    cases hi : Image.parse source with
    | error failure =>
      rw [Operation.perform, Operation.withImage_of_error hi] at hp
      cases hp
      exact h.keep rfl fun _ => rfl
    | ok image =>
      rw [Operation.perform, Operation.withImage_of_ok hi] at hp
      cases hp
      exact h.keep rfl fun _ => rfl
  | writeMemoryText a text =>
    cases hv : Word.ofBinary text with
    | error e =>
      rw [Operation.perform_writeMemoryText_of_error fuel s hv] at hp
      cases hp
      exact h.keep rfl fun _ => rfl
    | ok v =>
      rw [Operation.perform_writeMemoryText_of_ok fuel s hv] at hp
      cases hp
      exact h.keep rfl fun _ => rfl
  | readRegisterText index =>
    rw [Operation.perform_readRegisterText] at hp
    exact h.readFrom hp
  | readRegister index => exact h.readFrom hp
  | writeRegisterText index text => exact h.writeTextTo hp
  | writeRegister index v => exact h.writeTo hp
  | execute w =>
    rw [Operation.perform, Instruction.execute] at hp
    cases hi : Instruction.decodeFor s.machine w with
    | error fault =>
      rw [hi] at hp
      cases hp
      exact h.append_none (registerWrite?_of_decodeFor_error hi _)
    | ok i =>
      rw [hi] at hp
      cases hp
      exact h.effect hi
  | step | cycle =>
    cases hp
    exact h.cycle
  | stepMany n =>
    cases hp
    exact h.stepMany n
  | run =>
    rw [Operation.perform] at hp
    split at hp
    · cases hp
    · next result u hrun =>
      cases hp
      rw [Simulator.eq_advance_of_run hrun]
      exact h.advance fuel

theorem performAll (h : s.machine.Shows ws) {fuel : Nat} {ops : List Operation}
    {replies : List Reply} (hp : Operation.performAll fuel s ops = some (replies, t)) :
    t.machine.Shows (Operation.allWritesSince fuel s ws ops) := by
  induction ops generalizing s ws replies with
  | nil =>
    cases hp
    exact h
  | cons op ops ih =>
    rw [Operation.performAll] at hp
    rw [Operation.allWritesSince]
    cases hop : Operation.perform fuel s op with
    | none =>
      rw [hop] at hp
      cases hp
    | some result =>
      rw [hop] at hp
      cases hall : Operation.performAll fuel result.2 ops with
      | none =>
        simp only [hall] at hp
        cases hp
      | some results =>
        simp only [hall] at hp
        cases hp
        exact ih (h.perform hop) hall

end Machine.Shows

theorem signOf_ne_unset (v : Word) : signOf v ≠ .unset := by
  rw [← ofWord_eq_signOf]
  exact Condition.ofWord_ne_unset v

/-- After any session from a fresh simulator the condition code is the sign of the word that was
last written to a register, or unset if none was; no branch is taken then. -/
theorem condition_follows_writes {fuel : Nat} {ops : List Operation} {replies : List Reply}
    {s : Simulator} (h : Operation.performAll fuel .initial ops = some (replies, s)) :
    let ws := Operation.allWritesSince fuel .initial [] ops
    (s.machine.condition = .unset ↔ ws = []) ∧
    (ws = [] → (∀ r, s.machine.readRegister r = 0) ∧ ∀ nzp, s.machine.PassesBranch nzp) ∧
    (∀ r v, ws.getLast? = some (r, v) →
      s.machine.condition = signOf v ∧ s.machine.readRegister r = v) ∧
    (ws ≠ [] → ∀ nzp,
      (s.machine.TakesBranch nzp ∧ s.machine.PassesBranch (7 - nzp)) ∨
        (s.machine.PassesBranch nzp ∧ s.machine.TakesBranch (7 - nzp))) := by
  intro ws
  have hs : s.machine.Shows ws := Machine.Shows.initial.performAll (s := .initial) h
  have hset : ws ≠ [] → s.machine.condition ≠ .unset := by
    intro hws
    obtain ⟨⟨r, v⟩, hlast⟩ := Option.isSome_iff_exists.1 (List.getLast?_isSome.2 hws)
    rw [(hs.last r v hlast).1]
    exact signOf_ne_unset v
  refine ⟨⟨fun hunset => ?_, fun hws => (hs.fresh hws).1⟩, fun hws => ?_, hs.last,
    fun hws nzp => ?_⟩
  · by_contra hws
    exact hset hws hunset
  · obtain ⟨hunset, hzero⟩ := hs.fresh hws
    refine ⟨hzero, fun nzp => Machine.passesBranch_of_meets ?_⟩
    rw [hunset]
    exact Condition.meets_unset nzp
  · have hcomplement := Condition.meets_complement (hset hws) nzp
    cases hm : s.machine.condition.meets nzp with
    | true =>
      rw [hm] at hcomplement
      exact .inl ⟨Machine.takesBranch_of_meets hm, Machine.passesBranch_of_meets hcomplement⟩
    | false =>
      rw [hm] at hcomplement
      exact .inr ⟨Machine.passesBranch_of_meets hm, Machine.takesBranch_of_meets hcomplement⟩

/-- A program that clears R0 after R2 has been given a negative word. -/
theorem condition_after_clearing :
    let ops : List Operation :=
      [.writeRegister 2 0x8000, .load ⟨0, [0x5020, 0xF025]⟩, .writeRegister 8 1, .run]
    ∃ replies s, Operation.performAll 9 .initial ops = some (replies, s) ∧
      s.machine.condition = .zero ∧ s.machine.readRegister 0 = 0 := by
  intro ops
  have hsome : (Operation.performAll 9 .initial ops).isSome = true := by decide
  obtain ⟨⟨replies, s⟩, h⟩ := Option.isSome_iff_exists.1 hsome
  obtain ⟨-, -, hlast, -⟩ := condition_follows_writes h
  obtain ⟨hcondition, hvalue⟩ := hlast 0 0 (by decide)
  exact ⟨replies, s, h, hcondition, hvalue⟩

end Lc3
