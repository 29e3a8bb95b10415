import Lc3.CommandLine.Outcome
import Lc3.Proofs.MemoryWrites
import Lc3.Proofs.Outcomes
import Mathlib.Data.List.Perm.Basic

/-! # What a run starts with

A run reads its image, its pokes and its dumps and then starts a machine on which the pokes have
been made and the image has been loaded over them. `Start.ofOptions_eq_ok_iff` says when there is
such a machine, and `start_of_run` what it holds: at each address the last word of the image that
falls there, else that of the last poke to it, else zero. So only the order of pokes to one address
matters. -/

namespace Lc3.CommandLine

namespace Start
variable {files : Files} {path : String} {options : RunOptions}

theorem ofOptions_eq_ok_iff {start : Start} :
    ofOptions files path options = .ok start ↔ ∃ image pokes dumps,
      readImage files path = .ok image ∧
      List.Forall₂ (fun text p => Poke.parse text = .ok p) options.pokes pokes ∧
      List.Forall₂ (fun text a => Address.parse text = .ok a) options.dumps dumps ∧
      start = ⟨image.origin, .ofMachine (machine options.supervisor pokes image), dumps⟩ := by
  simp only [ofOptions, Except.bind_eq_ok_iff, Except.mapM_eq_ok_iff]
  constructor
  · rintro ⟨image, himage, pokes, hpokes, dumps, hdumps, h⟩
    cases h
    exact ⟨image, pokes, dumps, himage, hpokes, hdumps, rfl⟩
  · rintro ⟨image, pokes, dumps, himage, hpokes, hdumps, rfl⟩
    exact ⟨image, himage, pokes, hpokes, dumps, hdumps, rfl⟩

theorem exists_simulator_eq {start : Start} (h : ofOptions files path options = .ok start) :
    ∃ m, start.simulator = .ofMachine m := by
  obtain ⟨_, _, _, -, -, -, rfl⟩ := ofOptions_eq_ok_iff.1 h
  exact ⟨_, rfl⟩

theorem isRunning_simulator {start : Start} (h : ofOptions files path options = .ok start) :
    start.simulator.isRunning = true := by
  obtain ⟨m, hm⟩ := exists_simulator_eq h
  rw [hm]
  rfl

end Start

/-! ### The machine -/

theorem foldl_apply (pokes : List Poke) (m : Machine) :
    (∀ r, (pokes.foldl Poke.apply m).readRegister r = m.readRegister r) ∧
      (pokes.foldl Poke.apply m).condition = m.condition ∧
      (pokes.foldl Poke.apply m).supervisor = m.supervisor := by
  induction pokes generalizing m with
  | nil => exact ⟨fun _ => rfl, rfl, rfl⟩
  | cons p pokes ih => exact ih (p.apply m)

namespace Start

section
variable (supervisor : Bool) (pokes : List Poke) (image : Image)

theorem readMemory_machine (a : Word) :
    (machine supervisor pokes image).readMemory a =
      ((lastTo a image.writes).or (lastTo a (pokes.map Poke.write))).getD 0 := by
  have hzero : (Machine.initial.setSupervisor supervisor).readMemory a = 0 := Memory.read_zero a
  rw [machine, Image.readMemory_load, Poke.readMemory_foldl_apply, hzero, Option.getD_or]

theorem readRegister_machine (r : Register) :
    (machine supervisor pokes image).readRegister r = 0 := by
  obtain ⟨hregs, -, -⟩ := foldl_apply pokes (Machine.initial.setSupervisor supervisor)
  refine (hregs r).trans ?_
  simp [Machine.initial, Machine.readRegister, Machine.setSupervisor]

theorem condition_machine : (machine supervisor pokes image).condition = .unset :=
  (foldl_apply pokes (Machine.initial.setSupervisor supervisor)).2.1

theorem supervisor_machine : (machine supervisor pokes image).supervisor = supervisor :=
  (foldl_apply pokes (Machine.initial.setSupervisor supervisor)).2.2

end

section
variable {pokes pokes' : List Poke} (supervisor : Bool) (image : Image)

/-- Only the order of the pokes to one address matters. -/
theorem machine_congr
    (h : ∀ a, pokes'.filter (·.address = a) = pokes.filter (·.address = a)) :
    machine supervisor pokes' image = machine supervisor pokes image := by
  have hlast : ∀ a, lastTo a (pokes'.map Poke.write) = lastTo a (pokes.map Poke.write) := by
    intro a
    rw [lastTo, lastTo, List.filter_map, List.filter_map]
    exact congrArg (fun ps => ((ps.map Poke.write).getLast?).map (·.2)) (h a)
  refine Machine.ext_read (fun a => ?_) (fun r => ?_) rfl ?_ ?_
  · rw [readMemory_machine, readMemory_machine, hlast]
  · rw [readRegister_machine, readRegister_machine]
  · rw [condition_machine, condition_machine]
  · rw [supervisor_machine, supervisor_machine]

theorem filter_address_of_perm (h : pokes'.Perm pokes) (hn : (pokes.map Poke.address).Nodup)
    (a : Word) : pokes'.filter (·.address = a) = pokes.filter (·.address = a) := by
  have hperm : (pokes'.filter (·.address = a)).Perm (pokes.filter (·.address = a)) := h.filter _
  cases hf : pokes.filter (·.address = a) with
  | nil =>
    rw [hf] at hperm
    exact List.perm_nil.1 hperm
  | cons p ps =>
    -- Another poke to the same address would be the first one again.
    have hsame : ∀ q ∈ pokes.filter (·.address = a), q.address = a := by
      intro q hq
      simpa using (List.mem_filter.1 hq).2
    have hnodup := (List.pairwise_map.1 hn).filter (·.address = a)
    rw [hf] at hperm hsame hnodup
    have hps : ps = [] := by
      refine List.eq_nil_iff_forall_not_mem.2 fun q hq => ?_
      have hne := (List.pairwise_cons.1 hnodup).1 q hq
      exact hne ((hsame p (by simp)).trans (hsame q (by simp [hq])).symm)
    rw [hps] at hperm ⊢
    exact List.perm_singleton.1 hperm

end

end Start

end Lc3.CommandLine
