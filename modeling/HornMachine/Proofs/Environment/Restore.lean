import HornMachine.Proofs.Environment.Emit

/-!
This module contains what a collection leaves behind that comes to a fault. A fault of the search puts the
state and the features under construction back, a fault of the run that the search starts with does not.
-/

namespace HornMachine

namespace Exec

theorem resetTo_eq_error {action : Exec α} {m m₀ m' : Machine} {fault : Fault}
    (h : resetTo m action m₀ = .error fault m')
    : ∃ m₁, action m₀ = .error fault m₁ ∧
        m' = { m₁ with state := m.state, features := m.features } := by
  unfold resetTo at h
  split at h
  . contradiction
  . next m₁ heq =>
    cases h
    exact ⟨m₁, heq, rfl⟩

end Exec

namespace Environment

section

variable {env : Environment} {run : Runner} {addr : Nat} {m m' : Machine} {fault : Fault}

theorem gatherWith_eq_error (h : env.gatherWith run addr m = .error fault m')
    : run (some addr) true { m with state := m.state.clearCalls, features := [] } = .error fault m' ∨
      ∃ report m₁ m₂,
        run (some addr) true { m with state := m.state.clearCalls, features := [] } = .ok report m₁ ∧
        visit (env.expand run) env.config.maxFindallDepth env.config.maxFindallDepth m₁.state
          (Features.gather [] report) m₁ = .error fault m₂ ∧
        m' = { m₂ with state := m.state, features := m.features } := by
  rw [gatherWith_eq_visit] at h
  change (run (some addr) true >>= _) { m with state := m.state.clearCalls, features := [] } = _ at h
  rcases Exec.bind_eq_error.mp h with hrun | ⟨report, m₁, hrun, h⟩
  . exact .inl hrun
  . rcases Exec.resetTo_eq_error h with ⟨m₂, hvisit, hm'⟩
    exact .inr ⟨report, m₁, m₂, hrun, hvisit, hm'⟩

/--
A collection whose first run answers puts the state and the features under construction back if it comes
to a fault, whatever the search did before the fault. If the first run does not answer, its fault and what
it left behind are those of the collection.
-/
theorem execute_ffindall_error (h : env.execute (.ffindall addr) true m = .error fault m')
    : env.nesting = 0 ∧ m' = m ∨
      ∃ nesting, env.nesting = nesting + 1 ∧
        (env.program.run (env.gather nesting) (some addr) true
            { m with state := m.state.clearCalls, features := [] } = .error fault m' ∨
          ∃ report m₁,
            env.program.run (env.gather nesting) (some addr) true
              { m with state := m.state.clearCalls, features := [] } = .ok report m₁ ∧
            m'.state = m.state ∧ m'.features = m.features) := by
  have hgather : env.gather env.nesting addr m = .error fault m' := by
    rw [execute_ffindall_apply] at h
    split at h <;> cases h
    assumption
  cases hnesting : env.nesting with
  | zero =>
    rw [hnesting] at hgather
    cases hgather
    exact .inl ⟨rfl, rfl⟩
  | succ nesting =>
    rw [hnesting] at hgather
    refine .inr ⟨nesting, rfl, ?_⟩
    rcases gatherWith_eq_error hgather with hrun | ⟨report, m₁, _, hrun, _, rfl⟩
    . exact .inl hrun
    . exact .inr ⟨report, m₁, hrun, rfl, rfl⟩

end

namespace Sample

def underway : Machine where
  state := { calls := [⟨0, 0, 5, none⟩], pc := some 1 }
  features := [⟨"kept", 0, []⟩]

def shallow : Environment where
  program := fork.program
  config := { maxFindallDepth := 0 }

end Sample

theorem execute_ffindall_error_sample
    : ∃ m', Sample.shallow.execute (.ffindall 0) true Sample.underway =
        .error (.findallDepthExceeded 0) m' ∧
      m'.state = Sample.underway.state ∧ m'.features = Sample.underway.features := by
  have hgather : Sample.shallow.gather Sample.shallow.nesting 0 Sample.underway =
      .error (.findallDepthExceeded 0) Sample.underway := by
    show Sample.shallow.gatherWith (Sample.shallow.program.run (Sample.shallow.gather 999)) 0 _ = _
    rw [gatherWith_eq_visit]
    decide +kernel
  have herror : Sample.shallow.execute (.ffindall 0) true Sample.underway =
      .error (.findallDepthExceeded 0) Sample.underway := by
    rw [execute_ffindall_apply, hgather]
  refine ⟨_, herror, ?_⟩
  rcases execute_ffindall_error herror with ⟨hnesting, -⟩ | ⟨nesting, hnesting, hrun | hrun⟩
  . contradiction
  . cases hnesting
    have hanswers : ∃ report m₁, Sample.shallow.program.run (Sample.shallow.gather 999) (some 0) true
        { Sample.underway with state := Sample.underway.state.clearCalls, features := [] } =
          .ok report m₁ := ⟨∅, { state := { Sample.calling with } }, by decide +kernel⟩
    rcases hanswers with ⟨report, m₁, hok⟩
    rw [hok] at hrun
    contradiction
  . rcases hrun with ⟨-, -, -, hstate, hfeatures⟩
    exact ⟨hstate, hfeatures⟩

/--
There is no instruction at the address that the collection starts from. The frame, the place in the
program and the feature under construction are lost.
-/
theorem ffindall_drops_state
    : ({} : Environment).execute (.ffindall 7) true Sample.underway =
        .error (.invalidAddress 7) { state := { pc := some 7 } } ∧
      ({ pc := some 7 } : State) ≠ Sample.underway.state ∧
      [] ≠ Sample.underway.features := by
  refine ⟨by decide +kernel, ?_, nofun⟩
  intro heq
  exact absurd (congrArg State.pc heq) (by decide)

end Environment

end HornMachine
