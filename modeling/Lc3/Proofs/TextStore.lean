import Lc3.Proofs.Culprits
import Lc3.Proofs.Stopped

/-! # The boundary as a store of texts

From outside, memory and the registers are places for texts, and writing to them is all that the
calls of this module do. A call is accepted if its text is 16 binary digits and its place exists;
`boundary_stores_texts` says that any calls in any order leave at each place the text of the last
accepted one there, and that the others change nothing. -/

namespace Lc3
open Image (IsWord)

instance : DecidablePred IsBinary :=
  fun cs => inferInstanceAs (Decidable (∀ c ∈ cs, c = '0' ∨ c = '1'))

instance : DecidablePred IsWord :=
  fun cs => inferInstanceAs (Decidable (cs.length = 16 ∧ IsBinary cs))

/-- A place that holds a word. -/
inductive Location where
  | memory (address : Word)
  | register (register : Register)
deriving Repr, DecidableEq

namespace Location

def word (m : Machine) : Location → Word
  | memory a => m.readMemory a
  | register r => m.readRegister r

def write (l : Location) (v : Word) (m : Machine) : Machine :=
  match l with
  | memory a => m.writeMemory a v
  | register r => m.writeRegister r v

/-- Asks the simulator for the text there. -/
def read (s : Simulator) : Location → Except Misuse String
  | memory a => .ok (s.readMemory a)
  | register r => s.readRegister r

section
variable (l : Location) (v : Word) (m : Machine)

theorem word_write (l' : Location) :
    l'.word (l.write v m) = if l = l' then v else l'.word m := by
  cases l <;> cases l' <;> simp [word, write]

@[simp] theorem pc_write : (l.write v m).pc = m.pc := by cases l <;> rfl

@[simp] theorem supervisor_write : (l.write v m).supervisor = m.supervisor := by cases l <;> rfl

theorem read_eq (s : Simulator) : l.read s = .ok (l.word s.machine).toBinary := by
  cases l with
  | memory a => rfl
  | register r => simp [read, word, Simulator.readRegister, Machine.register?, Except.map]

end

end Location

/-- A call that writes a text. Its register may be any number. -/
inductive TextWrite where
  | memory (address : Word) (text : String)
  | register (index : Nat) (text : String)
deriving Repr, DecidableEq

namespace TextWrite
open Operation (perform performAll)

def text : TextWrite → String
  | memory _ text | register _ text => text

def location? : TextWrite → Option Location
  | memory a _ => some (.memory a)
  | register index _ => if h : index < 8 then some (.register ⟨index, h⟩) else none

def operation : TextWrite → Operation
  | memory a text => .writeMemoryText a text
  | register index text => .writeRegisterText index text

def Accepted (w : TextWrite) : Prop :=
  IsWord w.text.toList ∧ ∃ l, w.location? = some l

/-- The reply tells whether the call was accepted, and if not, what is wrong with it. The text is
looked at first. -/
structure Answered (w : TextWrite) (reply : Reply) : Prop where
  done_iff : reply = .done ↔ w.Accepted
  malformed : ¬ IsWord w.text.toList →
    ∃ e, reply = .malformed e ∧ e.Describes (· = 16) w.text.toList
  misuse : IsWord w.text.toList → ∀ index, w = register index w.text → 8 ≤ index →
    reply = .misuse (.registerOutOfRange index)

/-- What the call leaves at `l`, if it is accepted and goes there. -/
def textFor? (l : Location) (w : TextWrite) : Option String :=
  if IsWord w.text.toList ∧ w.location? = some l then some w.text else none

/-- The text of the last accepted call to `l`. -/
def lastText? (l : Location) (writes : List TextWrite) : Option String :=
  (writes.filterMap (textFor? l)).getLast?

theorem getD_lastText?_cons (l : Location) (w : TextWrite) (ws : List TextWrite) (text : String) :
    (lastText? l (w :: ws)).getD text = (lastText? l ws).getD ((w.textFor? l).getD text) := by
  rw [lastText?, List.filterMap_cons]
  cases w.textFor? l with
  | none => rfl
  | some new => simp [lastText?, List.getLast?_cons]

/-- `t` is `s` with the texts of the accepted calls in their places. -/
structure Stored (s : Simulator) (writes : List TextWrite) (t : Simulator) : Prop where
  read : ∀ l, ∃ text, Location.read s l = .ok text ∧
    Location.read t l = .ok ((lastText? l writes).getD text)
  pc : t.machine.pc = s.machine.pc
  supervisor : t.machine.supervisor = s.machine.supervisor
  count : t.count = s.count
  status : t.status = s.status

theorem Stored.refl (s : Simulator) : Stored s [] s where
  read l := ⟨_, l.read_eq s, l.read_eq s⟩
  pc := rfl
  supervisor := rfl
  count := rfl
  status := rfl

theorem Stored.cons {s t u : Simulator} {w : TextWrite} {ws : List TextWrite}
    (hw : Stored s [w] t) (hws : Stored t ws u) : Stored s (w :: ws) u where
  read l := by
    obtain ⟨text, hs, ht⟩ := hw.read l
    obtain ⟨text', ht', hu⟩ := hws.read l
    cases ht.symm.trans ht'
    refine ⟨text, hs, ?_⟩
    rw [hu, getD_lastText?_cons, getD_lastText?_cons]
    rfl
  pc := hws.pc.trans hw.pc
  supervisor := hws.supervisor.trans hw.supervisor
  count := hws.count.trans hw.count
  status := hws.status.trans hw.status

/-! ### One call -/

section
variable {w : TextWrite} {v : Word} {l : Location}

theorem perform_of_malformed {e : BinaryError} (h : Word.ofBinary w.text = .error e) (fuel : Nat)
    (s : Simulator) : perform fuel s w.operation = some (.malformed e, s) := by
  cases w <;> simp only [text] at h
  · exact Operation.perform_writeMemoryText_of_error fuel s h _
  · exact Operation.perform_writeRegisterText_of_error fuel s h _

theorem perform_of_location?_eq_some (h : Word.ofBinary w.text = .ok v)
    (hl : w.location? = some l) (fuel : Nat) (s : Simulator) :
    perform fuel s w.operation = some (.done, s.mapMachine (l.write v)) := by
  cases w with
  | memory a text =>
    simp only [TextWrite.text] at h
    cases hl
    exact Operation.perform_writeMemoryText_of_ok fuel s h a
  | register index text =>
    simp only [TextWrite.text] at h
    rw [location?, Option.dite_none_right_eq_some] at hl
    obtain ⟨hlt, hl⟩ := hl
    cases hl
    exact (Operation.perform_writeRegisterText_of_ok fuel s h index).trans
      (congrArg some (Operation.withRegister_of_lt hlt _ _))

theorem perform_of_location?_eq_none (h : Word.ofBinary w.text = .ok v) (hl : w.location? = none) :
    ∃ index, 8 ≤ index ∧ w = register index w.text ∧ ∀ fuel s,
      perform fuel s w.operation = some (.misuse (.registerOutOfRange index), s) := by
  cases w with
  | memory a text => cases hl
  | register index text =>
    simp only [TextWrite.text] at h
    have hge : 8 ≤ index := Nat.not_lt.1 fun hlt => by simp [location?, hlt] at hl
    refine ⟨index, hge, rfl, fun fuel s => ?_⟩
    exact (Operation.perform_writeRegisterText_of_ok fuel s h index).trans
      (congrArg some (Operation.withRegister_of_le hge _ _))

theorem stored_singleton (h : Word.ofBinary w.text = .ok v) (hl : w.location? = some l)
    (s : Simulator) : Stored s [w] (s.mapMachine (l.write v)) where
  read l' := by
    have hword : IsWord w.text.toList := Image.isWord_iff.2 ⟨v, h⟩
    refine ⟨_, l'.read_eq s, ?_⟩
    rw [l'.read_eq, Simulator.machine_mapMachine, Location.word_write, getD_lastText?_cons,
      textFor?, hl]
    by_cases heq : l = l'
    · simp [heq, hword, ← Word.ofBinary_eq_ok_iff.1 h, lastText?]
    · simp [heq, lastText?]
  pc := l.pc_write v s.machine
  supervisor := l.supervisor_write v s.machine
  count := rfl
  status := rfl

theorem answered_done (h : w.Accepted) : w.Answered .done where
  done_iff := by simp [h]
  malformed := absurd h.1
  misuse _ index hindex hge := by
    obtain ⟨-, l, hl⟩ := h
    rw [hindex, location?, dif_neg (Nat.not_lt.2 hge)] at hl
    cases hl

theorem perform_of_not_accepted (h : ¬ w.Accepted) : ∃ reply, w.Answered reply ∧
    ∀ fuel s, perform fuel s w.operation = some (reply, s) := by
  cases hw : Word.ofBinary w.text with
  | error e =>
    have hnot : ¬ IsWord w.text.toList := Image.not_isWord_iff.2 ⟨e, hw⟩
    exact ⟨.malformed e, ⟨by simp [h], fun _ => ⟨e, rfl, Word.ofDigits_eq_error_iff.1 hw⟩,
      fun hword => absurd hword hnot⟩, perform_of_malformed hw⟩
  | ok v =>
    have hword : IsWord w.text.toList := Image.isWord_iff.2 ⟨v, hw⟩
    have hl : w.location? = none := by
      refine Option.eq_none_iff_forall_ne_some.2 fun l hl => h ⟨hword, l, hl⟩
    obtain ⟨index, -, hindex, hperform⟩ := perform_of_location?_eq_none hw hl
    refine ⟨_, ⟨by simp [h], absurd hword, fun _ index' hindex' _ => ?_⟩, hperform⟩
    cases hindex.symm.trans hindex'
    rfl

theorem stored_of_not_accepted (h : ¬ w.Accepted) (s : Simulator) : Stored s [w] s where
  read l := by
    have hnone : w.textFor? l = none := if_neg fun hw => h ⟨hw.1, l, hw.2⟩
    refine ⟨_, l.read_eq s, ?_⟩
    rw [getD_lastText?_cons, hnone]
    exact l.read_eq s
  pc := rfl
  supervisor := rfl
  count := rfl
  status := rfl

theorem exists_perform (w : TextWrite) (fuel : Nat) (s : Simulator) : ∃ reply t,
    perform fuel s w.operation = some (reply, t) ∧ w.Answered reply ∧ Stored s [w] t := by
  by_cases h : w.Accepted
  · obtain ⟨hword, l, hl⟩ := id h
    obtain ⟨v, hv⟩ := Image.isWord_iff.1 hword
    exact ⟨.done, _, perform_of_location?_eq_some hv hl fuel s, answered_done h,
      stored_singleton hv hl s⟩
  · obtain ⟨reply, hanswered, hperform⟩ := perform_of_not_accepted h
    exact ⟨reply, s, hperform fuel s, hanswered, stored_of_not_accepted h s⟩

end

end TextWrite

open Operation TextWrite

/-- After any calls each place reads as the text of the last accepted call there, and as before if
there was none. The calls that are not accepted name what is wrong and change nothing. -/
theorem boundary_stores_texts (s : Simulator) (writes : List TextWrite) (fuel : Nat) :
    ∃ replies t, performAll fuel s (writes.map TextWrite.operation) = some (replies, t) ∧
      List.Forall₂ Answered writes replies ∧ Stored s writes t ∧
      ∀ w : TextWrite, ¬ w.Accepted →
        ∃ reply, w.Answered reply ∧ perform fuel t w.operation = some (reply, t) := by
  suffices h : ∃ replies t,
      performAll fuel s (writes.map TextWrite.operation) = some (replies, t) ∧
      List.Forall₂ Answered writes replies ∧ Stored s writes t by
    obtain ⟨replies, t, hall, hreplies, hstored⟩ := h
    refine ⟨replies, t, hall, hreplies, hstored, fun w hw => ?_⟩
    obtain ⟨reply, hanswered, hperform⟩ := perform_of_not_accepted hw
    exact ⟨reply, hanswered, hperform fuel t⟩
  induction writes generalizing s with
  | nil => exact ⟨[], s, rfl, .nil, .refl s⟩
  | cons w ws ih =>
    obtain ⟨reply, t, hperform, hanswered, hstored⟩ := exists_perform w fuel s
    obtain ⟨replies, u, hall, hreplies, hrest⟩ := ih t
    exact ⟨reply :: replies, u, performAll_cons hperform hall, .cons hanswered hreplies,
      hstored.cons hrest⟩

end Lc3
