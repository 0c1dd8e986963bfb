import HornMachine.Environment.Gather
import HornMachine.Machine.Argument

/-!
This module contains the goals that are left to prove in a state: the calls that it would make if each
of them were answered at once and without binding a variable.
-/

namespace HornMachine

namespace Environment

/--
Answers the call that the state waits for, if there is one. Its goal comes behind those `found` before.
-/
def answerCall (found : List Goal) : Exec (List Goal) := do
  if (← Exec.save).pc.isSome then
    return found
  else
    let goal ← Exec.read Machine.waitingGoal
    Exec.onState State.leave
    return found ++ [goal]

/--
Answers calls and runs on, in at most `rounds` rounds, until the state is completed or fails. The
goals called come behind those `found` before. There is no list if the rounds do not suffice.
-/
def pendingWithin (env : Environment) : (rounds : Nat) → (found : List Goal) →
    Exec (Option (List Goal))
  | 0, _ => return none
  | rounds + 1, found => do
    let found ← answerCall found
    let _ ← env.run none false
    let s ← Exec.save
    if s.completed || s.failed then
      return some found
    else
      env.pendingWithin rounds found

def pendingRounds (env : Environment) (s : State) : Nat :=
  (s.calls.length + 2) * (env.program.size + 2)

/--
The goals that are left to prove in a state. The machine keeps its own state.
-/
def pendingGoals (env : Environment) (s : State) : Exec (List Goal) := do
  let saved ← Exec.save
  Exec.resetState saved do
    Exec.restore s
    match ← env.pendingWithin (env.pendingRounds s) [] with
    | some goals => return goals
    | none => throw .endlessPendingGoals

end Environment

end HornMachine
