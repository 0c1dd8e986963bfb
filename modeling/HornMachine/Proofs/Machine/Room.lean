import HornMachine.Proofs.Interner.Growth
import HornMachine.Proofs.Machine.Faults

/-!
This module contains the constants that a machine interns. As long as its table has room for the names
that an operation may bring, the operation never fails for lack of an id, and the room remains.
-/

namespace HornMachine

namespace Fault

def NotFull (fault : Fault) : Prop :=
  ∀ entries, fault ≠ .poolExhausted entries

theorem Local.notFull {heap : Heap} (fault : Fault) (h : fault.Local heap) : fault.NotFull :=
  h.2

end Fault

namespace Machine

def HasRoom (names : List String) (m : Machine) : Prop :=
  m.symbols.Room names

abbrev Retains (names : List String) (x : Except Fault Machine) : Prop :=
  GivesTable Fault.NotFull (fun symbols => symbols.Room names) x

variable {names : List String} {m : Machine}

theorem gives_intern {name : String} (hroom : m.HasRoom names) (hname : name ∈ names)
    : Gives Fault.NotFull (fun entry => entry.2.Room names) (m.symbols.intern name) := by
  rcases hroom.intern hname with ⟨id, symbols, heq, hroom'⟩
  rw [heq]
  exact hroom'

end Machine

end HornMachine
