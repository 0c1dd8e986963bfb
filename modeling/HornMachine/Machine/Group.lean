import HornMachine.Interner.Shared
import HornMachine.Machine.Basic

/-!
This module contains groups of machines. The members of a group keep states and features of their own,
and those with handles to one symbol table share their constants.
-/

namespace HornMachine

structure Member where
  state : State := {}
  features : List Feature := []
  handle : Nat
deriving DecidableEq

structure Group where
  store : SymbolStore
  members : Array Member
deriving DecidableEq

namespace Group

def sharing (count : Nat) : Group where
  store := {}
  members := Array.replicate count { handle := 0 }

def separate (count : Nat) : Group where
  store := ⟨Array.replicate count .empty, Array.range count⟩
  members := Array.ofFn fun (i : Fin count) => { handle := i }

def machine (group : Group) (i : Nat) : Machine :=
  match group.members[i]? with
  | some member => ⟨member.state, group.store.table member.handle, member.features⟩
  | none => {}

def setMachine (group : Group) (i : Nat) (m : Machine) : Group :=
  match group.members[i]? with
  | some member =>
    { store := group.store.setTable member.handle m.symbols
      members := group.members.setIfInBounds i
        { member with state := m.state, features := m.features } }
  | none => group

def act (group : Group) (i : Nat) (action : Exec α) : Except Fault α × Group :=
  match action (group.machine i) with
  | .ok a m => (.ok a, group.setMachine i m)
  | .error fault m => (.error fault, group.setMachine i m)

end Group

end HornMachine
