import HornMachine.Machine.Execute
import HornMachine.Program.Basic

/-!
This module contains the run of a program up to the next pause. A run ends because a return uses up a
frame and every other instruction moves on in the program, or is a pause.
-/

namespace HornMachine

namespace State

/--
A bound on the instructions that are left to run in a program with `size` of them: the rest of the
program, and once the whole of it for each frame.
-/
def distance (size : Nat) (s : State) : Nat :=
  match s.next? with
  | none => 0
  | some pc => s.calls.length * (size + 1) + (size - pc) + 1

theorem next?_eq_some {s : State} {pc : Nat} (h : s.next? = some pc) : s.pc = some pc := by
  unfold next? at h
  split at h
  . contradiction
  . assumption

theorem distance_pos {size : Nat} {s : State} {pc : Nat} (h : s.next? = some pc)
    : 0 < s.distance size := by
  simp [distance, h]

theorem distance_advance_lt {size : Nat} {s s' : State} {pc : Nat} (hnext : s.next? = some pc)
    (hpc : pc < size) (h : s'.position = s.advance.position)
    : s'.distance size < s.distance size := by
  have hpos : 0 < s.distance size := distance_pos hnext
  match hnext' : s'.next? with
  | none => simpa [distance, hnext'] using hpos
  | some pc' =>
    simp only [position, advance, Prod.mk.injEq, next?_eq_some hnext, next?_eq_some hnext',
      Option.map_some, Option.some.injEq] at h
    simp only [distance, hnext, hnext', h]
    omega

theorem distance_enter (size : Nat) (s : State) (label : String)
    : (s.enter label).distance size = 0 := by
  simp [distance, next?, enter]

theorem distance_leave_lt {size : Nat} {s : State} {pc : Nat} (hnext : s.next? = some pc)
    : s.leave.distance size < s.distance size := by
  have hpos : 0 < s.distance size := distance_pos hnext
  match hcalls : s.calls with
  | [] =>
    have : s.leave.next? = none := by simp [leave, hcalls, next?]
    simpa [distance, this] using hpos
  | frame :: calls =>
    match hnext' : s.leave.next? with
    | none => simpa [distance, hnext'] using hpos
    | some pc' =>
      have hcalls' : s.leave.calls = calls := by simp [leave, hcalls]
      simp only [distance, hnext, hnext', hcalls, hcalls', List.length_cons, Nat.succ_mul]
      omega

end State

theorem execute_distance_lt {gather : Nat → Exec (List Goal)} {computeFeatures : Bool}
    {instr : Instruction} {m m' : Machine} {report : Features} {size pc : Nat}
    (hnext : m.state.next? = some pc) (hpc : pc < size)
    (h : execute gather computeFeatures instr m = .ok report m')
    : m'.state.distance size < m.state.distance size := by
  obtain h | ⟨label, h⟩ | h := execute_position h
  . exact State.distance_advance_lt hnext hpc h
  . rw [h, State.distance_enter]
    exact State.distance_pos hnext
  . rw [h]
    exact State.distance_leave_lt hnext

namespace Program

/--
Executes instructions until the state fails, is completed or waits for a call, or until features are
reported. The answer is that report, and empty if there is none.
-/
def runOn (program : Program) (gather : Nat → Exec (List Goal)) (computeFeatures : Bool)
    (m : Machine) : EStateM.Result Fault Machine Features :=
  match _hnext : m.state.next? with
  | none => .ok ∅ m
  | some pc =>
    match _hinstr : program.instruction pc with
    | .error fault => .error fault m
    | .ok instr =>
      match _hexec : execute gather computeFeatures instr m with
      | .error fault m' => .error fault m'
      | .ok report m' =>
        if report.isEmpty then
          runOn program gather computeFeatures m'
        else
          .ok report m'
termination_by m.state.distance program.size
decreasing_by exact execute_distance_lt _hnext (lt_size_of_instruction _hinstr) _hexec

theorem runOn_eq (program : Program) (gather : Nat → Exec (List Goal)) (computeFeatures : Bool)
    (m : Machine)
    : program.runOn gather computeFeatures m =
      match m.state.next? with
      | none => .ok ∅ m
      | some pc =>
        match program.instruction pc with
        | .error fault => .error fault m
        | .ok instr =>
          match execute gather computeFeatures instr m with
          | .error fault m' => .error fault m'
          | .ok report m' =>
            if report.isEmpty then program.runOn gather computeFeatures m' else .ok report m' := by
  rw [runOn]
  split <;> simp_all only
  split <;> simp_all only
  split <;> simp_all only

/--
Runs a program from `start`, or from where the state is. What an earlier run ended with is forgotten.
-/
def run (program : Program) (gather : Nat → Exec (List Goal)) (start : Option Nat)
    (computeFeatures : Bool) : Exec Features := do
  Exec.onState fun s => { s with pc := start <|> s.pc, failed := false, completed := false }
  program.runOn gather computeFeatures

end Program

end HornMachine
