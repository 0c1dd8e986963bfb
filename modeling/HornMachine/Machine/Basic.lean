import HornMachine.Goal.Feature
import HornMachine.Interner.Basic
import HornMachine.State.Basic

/-!
This module contains the machine and the actions on it. An action may fail, and what it changed before
that stays changed.
-/

namespace HornMachine

/--
The newest feature under construction comes first.
-/
structure Machine where
  state : State := {}
  symbols : SymbolTable := .empty
  features : List Feature := []
deriving DecidableEq

abbrev Exec := EStateM Fault Machine

namespace Exec

instance decidableEqResult [DecidableEq α] : DecidableEq (EStateM.Result Fault Machine α)
  | .ok a m, .ok b n => decidable_of_decidable_of_iff (p := a = b ∧ m = n) (by simp)
  | .error fault m, .error fault' n => decidable_of_decidable_of_iff (p := fault = fault' ∧ m = n) (by simp)
  | .ok _ _, .error _ _ => isFalse nofun
  | .error _ _, .ok _ _ => isFalse nofun

def update (f : Machine → Except Fault Machine) : Exec Unit := fun m =>
  match f m with
  | .ok m => .ok () m
  | .error fault => .error fault m

def read (f : Machine → Except Fault α) : Exec α := fun m =>
  match f m with
  | .ok a => .ok a m
  | .error fault => .error fault m

def onState (f : State → State) : Exec Unit :=
  modify fun m => { m with state := f m.state }

def save : Exec State :=
  return (← get).state

def restore (s : State) : Exec Unit :=
  onState fun _ => s

def advance : Exec Unit :=
  onState State.advance

def intern (name : String) : Exec Nat := fun m =>
  match m.symbols.intern name with
  | .ok (id, symbols) => .ok id { m with symbols }
  | .error fault => .error fault m

def register (reg : Int) : Exec Nat :=
  read (·.state.register reg)

def relative (offset : Int) : Exec Nat :=
  read (·.state.heap.relative offset)

def root (addr : Nat) : Exec Nat :=
  read (·.state.heap.root addr)

def constantAt (addr : Nat) : Exec (Option Nat) :=
  read (·.state.heap.constantAt addr)

def isFree (addr : Nat) : Exec Bool :=
  read (·.state.heap.isFree addr)

def push (cell : Cell) : Exec Unit :=
  onState (·.push cell)

def setFailed (failed : Bool) : Exec Unit :=
  onState fun s => { s with failed }

def write (addr : Nat) (cell : Cell) : Exec Unit :=
  update fun m => do
    let heap ← m.state.heap.write addr cell
    return { m with state := { m.state with heap } }

def setRegister (reg : Int) (addr : Nat) : Exec Unit :=
  update fun m => do
    let state ← m.state.setRegister reg addr
    return { m with state }

def collapse (start root : Nat) : Exec Unit := do
  if start ≠ root then
    write start (.ref root)

/--
Binds the free cell at `root` to a constant and lets `addr`, which leads to it, refer to it directly.
-/
def bindConstant (name : String) (addr root : Nat) : Exec Unit := do
  let id ← intern name
  write root (.const id)
  collapse addr root

/--
An action after which the state and the features under construction are those of `m`, also if it fails.
-/
def resetTo (m : Machine) (action : Exec α) : Exec α := fun m₀ =>
  match action m₀ with
  | .ok a m₁ => .ok a { m₁ with state := m.state, features := m.features }
  | .error fault m₁ => .error fault { m₁ with state := m.state, features := m.features }

def resetState (s : State) (action : Exec α) : Exec α := fun m₀ =>
  match action m₀ with
  | .ok a m₁ => .ok a { m₁ with state := s }
  | .error fault m₁ => .error fault { m₁ with state := s }

variable {x : Exec α} {m : Machine}

theorem map_apply (f : α → β) (x : Exec α) (m : Machine)
    : (f <$> x) m = match x m with
      | .ok a m' => .ok (f a) m'
      | .error fault m' => .error fault m' := by
  show EStateM.map f x m = _
  unfold EStateM.map
  cases x m with
  | ok _ _ => rfl
  | error _ _ => rfl

theorem bind_apply (x : Exec α) (f : α → Exec β) (m : Machine)
    : (x >>= f) m = match x m with
      | .ok a m' => f a m'
      | .error fault m' => .error fault m' := by
  show EStateM.bind x f m = _
  unfold EStateM.bind
  cases x m with
  | ok _ _ => rfl
  | error _ _ => rfl

theorem bind_of_ok {f : α → Exec β} {a : α} {m' : Machine} (h : x m = .ok a m')
    : (x >>= f) m = f a m' := by
  rw [bind_apply, h]

theorem bind_of_error {f : α → Exec β} {fault : Fault} {m' : Machine}
    (h : x m = .error fault m') : (x >>= f) m = .error fault m' := by
  rw [bind_apply, h]

theorem bind_eq_ok {f : α → Exec β} {m' : Machine} {b : β}
    : (x >>= f) m = .ok b m' ↔ ∃ a m₁, x m = .ok a m₁ ∧ f a m₁ = .ok b m' := by
  rw [bind_apply]
  cases x m with
  | ok _ _ => simp [and_assoc]
  | error _ _ => simp

theorem bind_eq_error {f : α → Exec β} {fault : Fault} {m' : Machine}
    : (x >>= f) m = .error fault m' ↔
      x m = .error fault m' ∨ ∃ a m₁, x m = .ok a m₁ ∧ f a m₁ = .error fault m' := by
  rw [bind_apply]
  cases x m with
  | ok _ _ => simp [and_assoc]
  | error _ _ => simp

theorem read_of_ok {f : Machine → Except Fault α} {a : α} (h : f m = .ok a)
    : read f m = .ok a m := by
  rw [read, h]

theorem read_eq_ok {f : Machine → Except Fault α} {a : α} {m' : Machine}
    : read f m = .ok a m' ↔ f m = .ok a ∧ m = m' := by
  unfold read
  split
  . next h => simp [h]
  . next h => simp [h]

theorem update_eq_ok {f : Machine → Except Fault Machine} {m' : Machine}
    : update f m = .ok () m' ↔ f m = .ok m' := by
  unfold update
  split <;> simp_all

theorem update_of_error {f : Machine → Except Fault Machine} {fault : Fault} (h : f m = .error fault)
    : update f m = .error fault m := by
  rw [update, h]

@[simp]
theorem onState_apply (f : State → State) (m : Machine)
    : onState f m = .ok () { m with state := f m.state } := rfl

@[simp]
theorem pure_apply (a : α) (m : Machine) : (pure a : Exec α) m = .ok a m := rfl

@[simp]
theorem get_apply (m : Machine) : (get : Exec Machine) m = .ok m m := rfl

@[simp]
theorem modify_apply (f : Machine → Machine) (m : Machine)
    : (modify f : Exec Unit) m = .ok () (f m) := rfl

end Exec

end HornMachine
