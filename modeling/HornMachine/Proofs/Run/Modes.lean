import HornMachine.Machine.Argument
import HornMachine.Proofs.Run.Step

/-!
This module contains runs in the two modes, with and without features computed. The instructions that
build features change nothing but the features under construction, and no other instruction reads these,
so a run without features passes through the same states.
-/

namespace HornMachine

namespace Machine

def Blind (f : Machine → Except Fault Machine) : Prop :=
  ∀ (m : Machine) (features : List Feature),
    f (m.withFeatures features) = (·.withFeatures features) <$> f m

theorem blind_pushConst (name : String) : Blind (pushConst name) := by
  intro m features
  simp only [pushConst, map_bind, map_pure]
  rfl

theorem blind_setRegister (reg : Int) (addr : Nat) : Blind (setRegister reg addr) := by
  intro m features
  simp only [setRegister, map_bind, map_pure]
  rfl

theorem blind_pushBoundVar (reg : Int) : Blind (pushBoundVar reg) := by
  intro m features
  simp only [pushBoundVar, map_bind, map_pure]
  rfl

theorem blind_unifyConst (name : String) (offset : Int) : Blind (unifyConst name offset) := by
  intro m features
  simp only [unifyConst, map_bind, withFeatures_state]
  congr 1
  funext addr
  congr 1
  funext root
  congr 1
  funext found
  cases found with
  | some id => rfl
  | none =>
    simp only [map_bind]
    congr 1
    funext free
    cases free with
    | false => rfl
    | true =>
      simp only [map_bind, map_pure, if_true]
      rfl

theorem blind_initFreeVar (reg offset : Int) : Blind (initFreeVar reg offset) := by
  intro m features
  simp only [initFreeVar, map_bind, withFeatures_state]
  congr 1
  funext addr
  exact blind_setRegister reg addr m features

theorem blind_unifyBoundVar (reg offset : Int) : Blind (unifyBoundVar reg offset) := by
  intro m features
  simp only [unifyBoundVar, map_bind, map_pure]
  rfl

theorem blind_setArgument (arity index : Nat) (name : String)
    : Blind (setArgument arity index name) := by
  intro m features
  simp only [setArgument, map_bind, withFeatures_state]
  show (m.argumentAddress arity index >>= _) = _
  congr 1
  funext addr
  congr 1
  funext root
  congr 1
  funext free
  cases free with
  | false => rfl
  | true =>
    simp only [map_bind, map_pure, if_true]
    rfl

end Machine

variable {gather : Nat → Exec (List Goal)} {instr : Instruction} {m n : Machine} {report : Features}

theorem stepping_update_withFeatures {f : Machine → Except Fault Machine} (hf : Machine.Blind f)
    (h : execute.stepping (Exec.update f) m = .ok report n) (features : List Feature)
    : execute.stepping (Exec.update f) (m.withFeatures features) =
      .ok ∅ (n.withFeatures features) := by
  rcases execute.stepping_update_eq_ok h with ⟨_, m₁, hm₁, rfl⟩
  have heq : f (m.withFeatures features) = .ok (m₁.withFeatures features) := by
    rw [hf, hm₁]
    rfl
  exact execute.stepping_update heq

theorem execute_withFeatures (hfindall : ∀ addr, instr ≠ .ffindall addr)
    (h : execute gather true instr m = .ok report n) (features : List Feature)
    : execute gather false instr (m.withFeatures features) = .ok ∅ (n.withFeatures features) := by
  by_cases hfeature : instr.isFeature = true
  . have hskip : execute gather false instr (m.withFeatures features) =
        .ok ∅ { m.withFeatures features with state := m.state.advance } := by
      rw [execute_eq_whole]
      unfold execute.whole
      rw [hfeature]
      rfl
    rw [hskip, execute_feature hfeature hfindall h]
    rfl
  rw [execute_eq_whole] at h ⊢
  cases instr with
  | grow count =>
    cases h
    rfl
  | callp label =>
    cases h
    rfl
  | returnp =>
    cases h
    rfl
  | pushConst name => exact stepping_update_withFeatures (Machine.blind_pushConst name) h features
  | pushFreeVar reg =>
    have hpush : execute.stepping (Exec.update (·.setRegister reg m.state.heap.size))
        { m with state := m.state.pushFree } = .ok report n := h
    exact stepping_update_withFeatures (Machine.blind_setRegister reg _) hpush features
  | pushBoundVar reg => exact stepping_update_withFeatures (Machine.blind_pushBoundVar reg) h features
  | unifyConst name offset =>
    exact stepping_update_withFeatures (Machine.blind_unifyConst name offset) h features
  | initFreeVar reg offset =>
    exact stepping_update_withFeatures (Machine.blind_initFreeVar reg offset) h features
  | unifyBoundVar reg offset =>
    exact stepping_update_withFeatures (Machine.blind_unifyBoundVar reg offset) h features
  | _ => exact absurd rfl hfeature

namespace Program

variable {program : Program}

theorem Runs.withFeatures
    (hfindall : ∀ (pc addr : Nat), program.code[pc]? ≠ some (.ffindall addr))
    (h : program.Runs gather true m report n) (features : List Feature)
    : program.runOn gather false (m.withFeatures features) =
      program.runOn gather false (n.withFeatures features) := by
  have hstep : ∀ {m m' : Machine} {pc : Nat} {instr : Instruction} {report : Features},
      m.state.RunsAt pc → program.code[pc]? = some instr →
      execute gather true instr m = .ok report m' →
      program.runOn gather false (m.withFeatures features) =
        program.runOn gather false (m'.withFeatures features) := by
    intro m m' pc instr report hat hinstr hexec
    have hfindall' : ∀ addr, instr ≠ .ffindall addr := by
      rintro addr rfl
      exact hfindall pc addr hinstr
    have hsame : (m.withFeatures features).state.RunsAt pc := hat
    exact runOn_step hsame hinstr (execute_withFeatures hfindall' hexec features)
  induction h with
  | pause => rfl
  | step hat hinstr hexec _ _ ih => rw [hstep hat hinstr hexec, ih]
  | report hat hinstr hexec => exact hstep hat hinstr hexec

theorem Runs.exists_runsAt (h : program.Runs gather true m report n)
    (hreport : report.isEmpty = false) : ∃ pc, n.state.RunsAt pc := by
  induction h with
  | pause => simp at hreport
  | step _ _ _ _ _ ih => exact ih hreport
  | @report m n pc instr report hat hinstr hexec =>
    have hfreport : instr = .freport := by
      by_contra hne
      rw [execute_report hne hexec] at hreport
      simp at hreport
    rw [hfreport] at hexec
    cases hexec
    exact ⟨pc + 1, hat.advance⟩

theorem Runs.next?_eq_none {computeFeatures : Bool}
    (h : program.Runs gather computeFeatures m report n) (hempty : report.isEmpty = true)
    : n.state.next? = none := by
  induction h with
  | pause h => exact h
  | step _ _ _ _ _ ih => exact ih hempty
  | report _ _ _ hreport =>
    rw [hempty] at hreport
    contradiction

variable (hfindall : ∀ (pc addr : Nat), program.code[pc]? ≠ some (.ffindall addr))
  {start : Option Nat}
include hfindall

theorem run_withFeatures (h : program.run gather start true m = .ok report n)
    (features : List Feature)
    : program.run gather start false (m.withFeatures features) =
      program.runOn gather false (n.withFeatures features) :=
  (runs_of_runOn h).withFeatures hfindall features

theorem run_report (h : program.run gather start true m = .ok report n)
    (hreport : report.isEmpty = false) (features : List Feature)
    : program.run gather start false (m.withFeatures features) =
      program.run gather none false (n.withFeatures features) := by
  rcases (runs_of_runOn h).exists_runsAt hreport with ⟨pc, hat⟩
  have hat' : (n.withFeatures features).state.RunsAt pc := hat
  rw [run_withFeatures hfindall h, run_none hat']

theorem run_silent (h : program.run gather start true m = .ok report n)
    (hempty : report.isEmpty = true) (features : List Feature)
    : program.run gather start false (m.withFeatures features) =
      .ok ∅ (n.withFeatures features) := by
  have hpause : (n.withFeatures features).state.next? = none :=
    (runs_of_runOn h).next?_eq_none hempty
  rw [run_withFeatures hfindall h, runOn_pause hpause]

end Program

end HornMachine
