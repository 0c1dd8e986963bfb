import HornMachine.Machine.Basic

/-!
This module contains the steps from a state to its successors, and the plugins that make such steps
for predicates without clauses.
-/

namespace HornMachine

structure Outlink where
  features : Option Features
  state : State
deriving DecidableEq

abbrev Runner := Option Nat → Bool → Exec Features

/--
A handler for calls that the program does not answer. Of several plugins the first one that claims
the label of a call answers it.
-/
structure Plugin where
  about : String
  claims : String → Bool
  /-- The successors of a state that waits for a claimed call and that the machine holds already. -/
  outlinks : Runner → State → Bool → Exec (List Outlink)

namespace Plugin

def granting (lead : String) : Plugin where
  about := s!"granting({lead})"
  claims label := lead.toList.isPrefixOf label.toList
  outlinks run _ _ := do
    Exec.onState State.leave
    let _ ← run none false
    return [⟨none, ← Exec.save⟩]

end Plugin

end HornMachine
