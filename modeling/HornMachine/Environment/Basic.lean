import HornMachine.Config
import HornMachine.Machine.Run
import HornMachine.Outlink

/-!
This module contains the environment that machines run in, and the successors of a waiting state.
-/

namespace HornMachine

structure Environment where
  program : Program := {}
  /-- The plugins that are asked for a call before the program is, in this order. -/
  plugins : List Plugin := []
  config : Config := {}
  /-- How many collections of features may be under way inside one another. -/
  nesting : Nat := 1000

namespace Environment

/--
The successor by the clause at `addr`. With features computed there is one only if the clause reports
features and neither it nor what runs after the report fails.
-/
def clauseOutlink (run : Runner) (s : State) (computeFeatures : Bool) (addr : Nat)
    : Exec (Option Outlink) := do
  Exec.restore s
  if computeFeatures then
    let features ← run (some addr) true
    if features.isEmpty || (← Exec.save).failed then
      return none
    else
      let _ ← run none true
      let after ← Exec.save
      if after.failed then
        return none
      else
        return some ⟨some features, after⟩
  else
    let _ ← run (some addr) false
    return some ⟨none, ← Exec.save⟩

/--
The successors of a state, one for each clause or answer of a plugin. Without features computed a
clause that fails gives a failed successor.
-/
def outlinksWith (env : Environment) (run : Runner) (s : State) (computeFeatures : Bool)
    : Exec (List Outlink) := do
  if s.completed then
    return []
  match s.jumpTo with
  | none => throw .noJumpTarget
  | some label =>
    match env.plugins.find? (·.claims label) with
    | some plugin =>
      Exec.restore s
      plugin.outlinks run s computeFeatures
    | none =>
      match env.program.addresses? label with
      | none => throw (.unknownPredicate label)
      | some addrs => addrs.filterMapM (clauseOutlink run s computeFeatures)

end Environment

end HornMachine
