import HornMachine.Environment.Pending
import HornMachine.Proofs.Run.Modes

/-!
This module contains what a run without features computed leaves alone: the features under construction. So
the listing of the goals that are left, which puts back the state of the machine, puts back all but the
constants that were interned.
-/

namespace HornMachine

def Exec.Spares (action : Exec α) : Prop :=
  ∀ m : Machine, match action m with
    | .ok _ m' => m'.features = m.features
    | .error _ m' => m'.features = m.features

namespace Exec.Spares

theorem pure (a : α) : Spares (pure a : Exec α) :=
  fun _ => rfl

theorem throw (fault : Fault) : Spares (throw fault : Exec α) :=
  fun _ => rfl

theorem save : Spares save :=
  fun _ => rfl

theorem onState (f : State → State) : Spares (onState f) :=
  fun _ => rfl

theorem bind {x : Exec α} {f : α → Exec β} (hx : Spares x) (hf : ∀ a, Spares (f a))
    : Spares (x >>= f) := by
  intro m
  have hx := hx m
  rw [bind_apply]
  match hok : x m with
  | .ok a m' =>
    rw [hok] at hx
    have hf := hf a m'
    rw [show m'.features = m.features from hx] at hf
    exact hf
  | .error fault m' =>
    rw [hok] at hx
    exact hx

theorem read (f : Machine → Except Fault α) : Spares (read f) := by
  intro m
  unfold Exec.read
  cases f m with
  | ok _ => rfl
  | error _ => rfl

theorem update {f : Machine → Except Fault Machine} (hf : Machine.Blind f) : Spares (update f) := by
  intro m
  unfold Exec.update
  match hok : f m with
  | .error _ => rfl
  | .ok m' =>
    -- the update would give the machine any other features back as well
    have hsame : f m = (·.withFeatures m.features) <$> f m := hf m m.features
    rw [hok] at hsame
    have heq : m' = m'.withFeatures m.features := Except.ok.inj hsame
    rw [heq]
    rfl

theorem features_eq {action : Exec α} (h : Spares action) {m m' : Machine} {a : α}
    (hok : action m = .ok a m') : m'.features = m.features := by
  have := h m
  rw [hok] at this
  exact this

theorem features_eq_of_error {action : Exec α} (h : Spares action) {m m' : Machine} {fault : Fault}
    (herror : action m = .error fault m') : m'.features = m.features := by
  have := h m
  rw [herror] at this
  exact this

theorem resetState_eq {action : Exec α} (h : Spares action) (m : Machine)
    : resetState m.state action m = resetTo m action m := by
  unfold resetState resetTo
  match hok : action m with
  | .ok a m' =>
    simp only
    rw [← h.features_eq hok]
  | .error fault m' =>
    simp only
    rw [← h.features_eq_of_error hok]

end Exec.Spares

section Run

variable (gather : Nat → Exec (List Goal)) (instr : Instruction) (program : Program)

theorem spares_stepping {action : Exec Unit} (h : Exec.Spares action)
    : Exec.Spares (execute.stepping action) :=
  h.bind fun _ => (Exec.Spares.onState _).bind fun _ => .pure _

theorem spares_execute : Exec.Spares (execute gather false instr) := by
  rw [execute_eq_whole]
  by_cases hfeature : instr.isFeature = true
  . unfold execute.whole
    rw [hfeature]
    exact (Exec.Spares.onState _).bind fun _ => .pure _
  cases instr with
  | grow count => exact spares_stepping (.onState _)
  | callp label => exact (Exec.Spares.onState _).bind fun _ => .pure _
  | returnp => exact (Exec.Spares.onState _).bind fun _ => .pure _
  | pushConst name => exact spares_stepping (.update (Machine.blind_pushConst name))
  | pushFreeVar reg =>
    intro m
    apply spares_stepping ((Exec.Spares.onState State.pushFree).bind fun _ =>
      .update (Machine.blind_setRegister reg m.state.heap.size))
  | pushBoundVar reg => exact spares_stepping (.update (Machine.blind_pushBoundVar reg))
  | unifyConst name offset => exact spares_stepping (.update (Machine.blind_unifyConst name offset))
  | initFreeVar reg offset => exact spares_stepping (.update (Machine.blind_initFreeVar reg offset))
  | unifyBoundVar reg offset =>
    exact spares_stepping (.update (Machine.blind_unifyBoundVar reg offset))
  | _ => exact absurd rfl hfeature

theorem spares_runOn : Exec.Spares (program.runOn gather false) := by
  intro m
  induction m using Program.runOn.induct program gather false with
  | case1 m hnext =>
    rw [Program.runOn_eq, hnext]
  | case2 m pc hnext fault hinstr =>
    rw [Program.runOn_eq, hnext]
    simp only [hinstr]
  | case3 m pc hnext instr hinstr fault m' hexec =>
    rw [Program.runOn_eq, hnext]
    simp only [hinstr, hexec]
    exact (spares_execute gather instr).features_eq_of_error hexec
  | case4 m pc hnext instr hinstr report m' hexec hempty ih =>
    rw [Program.runOn_eq, hnext]
    simp only [hinstr, hexec, hempty, if_true]
    rw [(spares_execute gather instr).features_eq hexec] at ih
    exact ih
  | case5 m pc hnext instr hinstr report m' hexec hempty =>
    rw [Program.runOn_eq, hnext]
    simp only [hinstr, hexec, hempty]
    exact (spares_execute gather instr).features_eq hexec

end Run

namespace Environment

variable (env : Environment)

theorem spares_run (start : Option Nat) : Exec.Spares (env.run start false) :=
  (Exec.Spares.onState _).bind fun _ => spares_runOn _ _

theorem spares_answerCall (found : List Goal) : Exec.Spares (answerCall found) := by
  apply Exec.Spares.save.bind
  intro s
  split
  . exact .pure _
  . exact (Exec.Spares.read _).bind fun _ => (Exec.Spares.onState _).bind fun _ => .pure _

theorem spares_pendingWithin (rounds : Nat) (found : List Goal)
    : Exec.Spares (env.pendingWithin rounds found) := by
  induction rounds generalizing found with
  | zero => exact .pure _
  | succ rounds ih =>
    apply (spares_answerCall found).bind
    intro found
    apply (env.spares_run none).bind
    intro _
    apply Exec.Spares.save.bind
    intro s
    split
    . exact .pure _
    . exact ih found

theorem pendingGoals_eq (s : State)
    : env.pendingGoals s = (do
        let m ← get
        Exec.resetTo m do
          Exec.restore s
          let listed ← env.pendingWithin (env.pendingRounds s) []
          listed.elim (throw .endlessPendingGoals) pure) := by
  funext m
  have hspares : Exec.Spares (do
      Exec.restore s
      let listed ← env.pendingWithin (env.pendingRounds s) []
      listed.elim (throw .endlessPendingGoals) pure) := by
    apply (Exec.Spares.onState _).bind
    intro _
    apply (env.spares_pendingWithin _ []).bind
    intro listed
    cases listed with
    | none => exact .throw _
    | some goals => exact .pure _
  rw [Exec.bind_of_ok (Exec.get_apply m), ← hspares.resetState_eq]
  unfold pendingGoals
  have hsave : Exec.save m = .ok m.state m := rfl
  rw [Exec.bind_of_ok hsave]
  congr 3
  funext _
  congr 1
  funext listed
  cases listed with
  | none => rfl
  | some goals => rfl

end Environment

end HornMachine
