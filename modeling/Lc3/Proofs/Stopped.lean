import Lc3.Session
import Mathlib.Data.List.Forall2

/-! # Machines that have stopped

A halt and a fault are final. The operations on one simulator are of two kinds: those that drive it,
which reply as its status says and do nothing once it has stopped (`perform_of_finalReply?`), and
those at its boundary, which read and change the machine alone and do not look at the status or the
count (`exists_perform_of_boundary`). So after a stop a session is what its boundary operations make
of the machine, with all else as it was (`performAll_of_stopped`). -/

namespace Lc3

theorem Simulator.run_of_not_isRunning {s : Simulator} (h : s.isRunning = false) (fuel : Nat) :
    s.run fuel = some (s.verdict, s) := by
  simp only [run, advance_of_not_isRunning fuel h, h, Bool.false_eq_true, if_false]

/-- What a simulator that has stopped replies when it is asked to go on. -/
def Status.finalReply? : Status → Operation → Option Reply
  | .halted, .step | .halted, .run => some .done
  | .halted, .cycle => some (.cycle none)
  | .faulted fault, .step | .faulted fault, .cycle | .faulted fault, .run => some (.faulted fault)
  | .halted, .stepMany _ | .faulted _, .stepMany _ => some .done
  | _, _ => none

namespace Operation

/-- Asks the machine to run what comes next. -/
def drives : Operation → Bool
  | step | cycle | run | stepMany _ => true
  | _ => false

/-- Goes on with another simulator. -/
def replaces : Operation → Bool
  | startOver _ | renew => true
  | _ => false

section
variable {op : Operation} {status : Status}

theorem exists_finalReply? (h : status.isRunning = false) (hop : op.drives = true) :
    ∃ reply, status.finalReply? op = some reply := by
  cases status with
  | idle | running => cases h
  | halted | faulted =>
    cases op with
    | step | cycle | run | stepMany => exact ⟨_, rfl⟩
    | _ => cases hop

theorem perform_of_finalReply? {s : Simulator} {reply : Reply}
    (h : s.status.finalReply? op = some reply) (fuel : Nat) :
    perform fuel s op = some (reply, s) := by
  obtain ⟨m, count, status⟩ := s
  cases status with
  | idle | running => cases h
  | halted | faulted =>
    cases op with
    | step | cycle | stepMany =>
      cases h
      rfl
    | run =>
      cases h
      rw [perform, Simulator.run_of_not_isRunning rfl]
      rfl
    | _ => cases h

theorem exists_withRegister {m : Machine} (index : Nat) (f : Register → Reply × Machine) :
    ∃ reply n, ∀ count status,
      withRegister ⟨m, count, status⟩ index
          (fun r => ((f r).1, ⟨(f r).2, count, status⟩)) =
        (reply, ⟨n, count, status⟩) := by
  rcases Nat.lt_or_ge index 8 with h | h
  · exact ⟨(f ⟨index, h⟩).1, (f ⟨index, h⟩).2, fun _ _ => withRegister_of_lt h _ _⟩
  · exact ⟨.misuse (.registerOutOfRange index), m, fun _ _ => withRegister_of_le h _ _⟩

/-- A boundary operation does the same under any other count and status, and keeps both. -/
theorem exists_perform_of_boundary (hd : op.drives = false) (hr : op.replaces = false)
    (m : Machine) : ∃ reply n, ∀ fuel count status,
      perform fuel ⟨m, count, status⟩ op = some (reply, ⟨n, count, status⟩) := by
  cases op with
  | step | cycle | run | stepMany => cases hd
  | startOver | renew => cases hr
  | load | writeMemory | jump | jumpRelative | setSupervisor => exact ⟨_, _, fun _ _ _ => rfl⟩
  | readMemoryText a => exact ⟨.text (m.readMemory a).toBinary, m, fun _ _ _ => rfl⟩
  | readMemory a => exact ⟨.word (m.readMemory a), m, fun _ _ _ => rfl⟩
  | decode w => exact ⟨.ofExcept .instruction (Instruction.decodeFor m w), m, fun _ _ _ => rfl⟩
  | loadText source =>
    cases h : Image.parse source with
    | error failure => exact ⟨_, _, fun _ _ _ => congrArg some (withImage_of_error h _ _)⟩
    | ok image => exact ⟨_, _, fun _ _ _ => congrArg some (withImage_of_ok h _ _)⟩
  | writeMemoryText a text =>
    cases h : Word.ofBinary text with
    | error e => exact ⟨.malformed e, m, fun _ _ _ => perform_writeMemoryText_of_error _ _ h a⟩
    | ok v =>
      exact ⟨.done, m.writeMemory a v, fun _ _ _ => perform_writeMemoryText_of_ok _ _ h a⟩
  | readRegisterText index =>
    obtain ⟨reply, n, hr⟩ :=
      exists_withRegister index fun r => (.text (m.readRegister r).toBinary, m)
    exact ⟨reply, n, fun fuel count status =>
      (perform_readRegisterText fuel _ index).trans (congrArg some (hr count status))⟩
  | readRegister index =>
    obtain ⟨reply, n, hr⟩ := exists_withRegister index fun r => (.word (m.readRegister r), m)
    exact ⟨reply, n, fun _ count status => congrArg some (hr count status)⟩
  | writeRegister index v =>
    obtain ⟨reply, n, hr⟩ := exists_withRegister index fun r => (.done, m.writeRegister r v)
    exact ⟨reply, n, fun _ count status => congrArg some (hr count status)⟩
  | writeRegisterText index text =>
    cases h : Word.ofBinary text with
    | error e =>
      exact ⟨.malformed e, m, fun _ _ _ => perform_writeRegisterText_of_error _ _ h index⟩
    | ok v =>
      obtain ⟨reply, n, hr⟩ := exists_withRegister index fun r => (.done, m.writeRegister r v)
      exact ⟨reply, n, fun fuel count status =>
        (perform_writeRegisterText_of_ok fuel _ h index).trans
          (congrArg some (hr count status))⟩
  | execute w =>
    cases h : Instruction.execute m w with
    | error fault => exact ⟨.faulted fault, m, fun _ _ _ => by simp only [perform, h]⟩
    | ok result =>
      exact ⟨.signal result.1, result.2, fun _ _ _ => by simp only [perform, h]; rfl⟩

theorem performAll_cons {fuel : Nat} {s t u : Simulator} {ops : List Operation} {reply : Reply}
    {replies : List Reply} (h : perform fuel s op = some (reply, t))
    (hall : performAll fuel t ops = some (replies, u)) :
    performAll fuel s (op :: ops) = some (reply :: replies, u) := by
  rw [performAll, h]
  simp only [hall]

/-- After a stop a session is that of its boundary operations. -/
theorem performAll_of_stopped (h : status.isRunning = false) {ops : List Operation}
    (hops : ∀ op ∈ ops, op.replaces = false) (m : Machine) : ∃ replies n,
      (∀ fuel count,
        performAll fuel ⟨m, count, status⟩ ops = some (replies, ⟨n, count, status⟩)) ∧
      List.Forall₂ (fun op reply => op.drives = true → status.finalReply? op = some reply)
        ops replies ∧
      ∃ replies', ∀ fuel count status',
        performAll fuel ⟨m, count, status'⟩ (ops.filter (!·.drives)) =
          some (replies', ⟨n, count, status'⟩) := by
  induction ops generalizing m with
  | nil => exact ⟨[], m, fun _ _ => rfl, .nil, [], fun _ _ _ => rfl⟩
  | cons op ops ih =>
    obtain ⟨hop, hops⟩ := List.forall_mem_cons.1 hops
    -- An operation that drives is left out of the second session and changes nothing in the first;
    -- any other takes both to the same machine.
    cases hd : op.drives with
    | true =>
      obtain ⟨reply, hreply⟩ := exists_finalReply? h hd
      obtain ⟨replies, n, hall, hreplies, replies', hboundary⟩ := ih hops m
      refine ⟨reply :: replies, n, fun fuel count => ?_, .cons (fun _ => hreply) hreplies,
        replies', ?_⟩
      · exact performAll_cons (perform_of_finalReply? hreply fuel) (hall fuel count)
      · rw [List.filter_cons_of_neg (by simp [hd])]
        exact hboundary
    | false =>
      obtain ⟨reply, m', hperform⟩ := exists_perform_of_boundary hd hop m
      obtain ⟨replies, n, hall, hreplies, replies', hboundary⟩ := ih hops m'
      refine ⟨reply :: replies, n, fun fuel count => ?_,
        .cons (fun hd' => ?_) hreplies, reply :: replies', fun fuel count status' => ?_⟩
      · exact performAll_cons (hperform fuel count status) (hall fuel count)
      · rw [hd] at hd'
        cases hd'
      · rw [List.filter_cons_of_pos (by simp [hd])]
        exact performAll_cons (hperform fuel count status') (hboundary fuel count status')

end

end Operation

open Operation

/-- After a halt or a fault no operations change the status or the count. What drives the simulator
replies as the status says, and the machine is what boundary operations alone have made of it. -/
theorem stop_is_final (s : Simulator) (h : s.isRunning = false) (ops : List Operation)
    (hops : ∀ op ∈ ops, op.replaces = false) (fuel : Nat) :
    ∃ replies t, performAll fuel s ops = some (replies, t) ∧
      t.status = s.status ∧ t.count = s.count ∧
      List.Forall₂ (fun op reply => op.drives = true → s.status.finalReply? op = some reply)
        ops replies ∧
      (∀ op, op.drives = true → ∃ reply, s.status.finalReply? op = some reply ∧
        perform fuel s op = some (reply, s) ∧ perform fuel t op = some (reply, t)) ∧
      ∀ fuel' u, u.machine = s.machine → ∃ replies' u',
        performAll fuel' u (ops.filter (!·.drives)) = some (replies', u') ∧
          u'.machine = t.machine ∧ u'.count = u.count ∧ u'.status = u.status := by
  obtain ⟨replies, n, hall, hreplies, replies', hboundary⟩ :=
    performAll_of_stopped h hops s.machine
  refine ⟨replies, ⟨n, s.count, s.status⟩, hall fuel s.count, rfl, rfl, hreplies, ?_, ?_⟩
  · intro op hop
    obtain ⟨reply, hreply⟩ := exists_finalReply? h hop
    exact ⟨reply, hreply, perform_of_finalReply? hreply fuel,
      perform_of_finalReply? (s := ⟨n, s.count, s.status⟩) hreply fuel⟩
  · intro fuel' u hu
    have hsession := hboundary fuel' u.count u.status
    rw [← hu] at hsession
    exact ⟨replies', ⟨n, u.count, u.status⟩, hsession, rfl, rfl, rfl⟩

/-- Neither supervisor mode nor a program that halts revives the machine. -/
theorem refused_stays_refused :
    let s := (Simulator.ofMachine (Machine.initial.writeMemory 0 0x8000)).advance 1
    let ops : List Operation :=
      [.setSupervisor true, .run, .load ⟨0, [0xF025]⟩, .writeRegister 1 5, .cycle]
    s.isRunning = false ∧ (∀ op ∈ ops, op.replaces = false) ∧
      ∃ replies t, performAll 9 s ops = some (replies, t) ∧
        t.status = .faulted (.unprivileged .rti 0x8000) ∧ t.count = 0 ∧
        perform 9 t .run = some (.faulted (.unprivileged .rti 0x8000), t) := by
  intro s ops
  have hstop : s.isRunning = false := by decide
  have hstatus : s.status = .faulted (.unprivileged .rti 0x8000) := by decide
  have hops : ∀ op ∈ ops, op.replaces = false := by decide
  obtain ⟨replies, t, hall, ht, hcount, -, hfinal, -⟩ := stop_is_final s hstop ops hops 9
  obtain ⟨reply, hreply, -, hrun⟩ := hfinal .run rfl
  rw [hstatus] at ht hreply
  cases hreply
  exact ⟨hstop, hops, replies, t, hall, ht, hcount.trans (by decide), hrun⟩

end Lc3
