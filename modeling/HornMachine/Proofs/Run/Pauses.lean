import HornMachine.Environment.Gather
import HornMachine.Proofs.Run.Faults

/-!
This module contains the end of every run. A run always ends, and if it comes to no fault it pauses for exactly
one reason.
-/

namespace HornMachine

inductive Pause where
  | failed
  | completed
  /-- A call waits for its answer. -/
  | waiting
  | reporting
deriving DecidableEq, Repr

namespace Pause

def Holds (report : Features) (s : State) : Pause → Prop
  | failed => s.failed = true
  | completed => s.completed = true
  | waiting => s.pc = none
  | reporting => report.isEmpty = false

variable {report : Features} {s : State}

theorem existsUnique_of_next? (hexclusive : s.Exclusive) (hnext : s.next? = none)
    (hempty : report.isEmpty = true) : ∃! pause : Pause, pause.Holds report s := by
  have hreport : ¬reporting.Holds report s := by simp [Holds, hempty]
  by_cases hfailed : s.failed = true
  . rcases hexclusive.failed hfailed with ⟨hcompleted, hpc⟩
    refine ⟨failed, hfailed, ?_⟩
    rintro (_ | _ | _ | _) hholds
    . rfl
    . simp [Holds, hcompleted] at hholds
    . simp [show s.pc = none from hholds] at hpc
    . contradiction
  by_cases hcompleted : s.completed = true
  . have hpc := hexclusive.completed hcompleted
    refine ⟨completed, hcompleted, ?_⟩
    rintro (_ | _ | _ | _) hholds
    . contradiction
    . rfl
    . simp [show s.pc = none from hholds] at hpc
    . contradiction
  . have hpc : s.pc = none := by
      simpa [State.next?, hfailed, hcompleted] using hnext
    refine ⟨waiting, hpc, ?_⟩
    rintro (_ | _ | _ | _) hholds
    . contradiction
    . contradiction
    . rfl
    . contradiction

theorem existsUnique_of_runsAt {pc : Nat} (hat : s.RunsAt pc) (hreport : report.isEmpty = false)
    : ∃! pause : Pause, pause.Holds report s := by
  refine ⟨reporting, hreport, ?_⟩
  rintro (_ | _ | _ | _) hholds
  . simp [Holds, hat.failed_eq] at hholds
  . simp [Holds, hat.completed_eq] at hholds
  . simp [Holds, hat.pc_eq] at hholds
  . rfl

end Pause

def State.begin (s : State) (start : Option Nat) : State :=
  { s with pc := start <|> s.pc, failed := false, completed := false }

/--
A run executes finitely many instructions, and each one that does not end it brings its end nearer. Either it
pauses for exactly one reason, or it comes to a fault of a single step, unless it collects features.
-/
theorem Environment.run_pauses {env : Environment} {computeFeatures : Bool} {start : Option Nat}
    {m : Machine} (hacyclic : m.state.heap.Acyclic)
    : ∃ trace : List (State × Instruction),
        env.program.Executes (env.gather env.nesting) computeFeatures
          { m with state := m.state.begin start } trace (env.run start computeFeatures m) ∧
        (trace.map Prod.fst).IsChain (State.Nearer env.program.size) ∧
        ((computeFeatures = true → ∀ (s : State) (addr : Nat), (s, .ffindall addr) ∉ trace) →
          ∀ (fault : Fault) (n : Machine), env.run start computeFeatures m = .error fault n →
            fault.Immediate True) ∧
        ∀ (report : Features) (n : Machine), env.run start computeFeatures m = .ok report n →
          (∃! pause : Pause, pause.Holds report n.state) ∧
          (report.isEmpty = false →
            n.state.failed = false ∧ n.state.completed = false ∧ n.state.pc.isSome ∧
            (trace.map Prod.snd).getLast? = some .freport) := by
  rcases env.program.exists_executes (env.gather env.nesting) computeFeatures
    { m with state := m.state.begin start } with ⟨trace, htrace⟩
  have hrun : env.run start computeFeatures m =
      env.program.runOn (env.gather env.nesting) computeFeatures
        { m with state := m.state.begin start } := rfl
  rw [← hrun] at htrace
  refine ⟨trace, htrace, htrace.isChain, ?_, ?_⟩
  . intro hskip fault n herror
    rw [herror] at htrace
    exact htrace.immediate hskip fun _ => hacyclic
  . intro report n hok
    rw [hok] at htrace
    rcases htrace.pause_cases (.of_flags rfl rfl) with
      ⟨hempty, hnext, hexclusive⟩ | ⟨hreport, ⟨pc, hat⟩, hlast⟩
    . refine ⟨Pause.existsUnique_of_next? hexclusive hnext hempty, ?_⟩
      intro hreport
      rw [hempty] at hreport
      contradiction
    . refine ⟨Pause.existsUnique_of_runsAt hat hreport, fun _ => ?_⟩
      exact ⟨hat.failed_eq, hat.completed_eq, by simp [hat.pc_eq], hlast⟩

namespace Sample

def backwardEnv : Environment where
  program := { code := #[.fclear, .freport, .unifyConst "a" (-1), .returnp] }

def backward : State where
  heap := #[.ref 3]
  calls := [⟨1, 0, 0, none⟩]
  pc := some 3

end Sample

theorem Environment.run_pauses_sample
    : Sample.backward.heap.Acyclic ∧
      ∃ (trace : List (State × Instruction)) (n : Machine),
        Sample.backwardEnv.run none true { state := Sample.backward } =
          .ok (Features.ofGoals [.noFeatures]) n ∧
        Sample.backwardEnv.program.Executes (Sample.backwardEnv.gather 1000) true
          { state := Sample.backward } trace (.ok (Features.ofGoals [.noFeatures]) n) ∧
        (trace.map Prod.fst).IsChain (State.Nearer 4) ∧
        (trace.map Prod.snd).getLast? = some .freport ∧
        ∃! pause : Pause, pause.Holds (Features.ofGoals [.noFeatures]) n.state := by
  have hacyclic : Sample.backward.heap.Acyclic := by
    refine ⟨fun addr => 4 - addr, ?_⟩
    intro addr target hcell _
    have haddr := (Array.getElem?_eq_some_iff.mp hcell).1
    obtain rfl : addr = 0 := Nat.lt_one_iff.mp haddr
    cases hcell
    decide
  have hrun : Sample.backwardEnv.run none true { state := Sample.backward } =
      .ok (Features.ofGoals [.noFeatures])
        { state := { Sample.backward with calls := [], pc := some 2 } } := by decide +kernel
  rcases @run_pauses Sample.backwardEnv true none { state := Sample.backward } hacyclic with
    ⟨trace, hexecutes, hchain, _, hpause⟩
  rcases hpause _ _ hrun with ⟨hunique, hreport⟩
  rw [hrun] at hexecutes
  exact ⟨hacyclic, trace, _, hrun, hexecutes, hchain, (hreport rfl).2.2.2, hunique⟩

end HornMachine
