import HornMachine.Machine.Basic

/-!
This module contains the arguments of a call. A call with `arity` arguments has them on top of the
heap, the last one topmost, and counts them from 1.
-/

namespace HornMachine

namespace Machine

def argumentAddress (m : Machine) (arity index : Nat) : Except Fault Nat :=
  let size := m.state.heap.size
  if index = 0 ∨ arity < index ∨ size < arity then
    .error (.invalidArgument arity index)
  else
    .ok (size - arity + index - 1)

def constant (m : Machine) (addr : Nat) : Except Fault String := do
  match ← m.state.heap.constantAt addr with
  | none => throw (.notConstant addr "get_arg")
  | some id =>
    match m.symbols.get? id with
    | none => throw (.unknownSymbol id)
    | some name => return name

def valueOf (m : Machine) (root : Nat) : Except Fault Argument := do
  if ← m.state.heap.isFree root then
    return .var root
  else
    return .const (← m.constant root)

def valueAt (m : Machine) (addr : Nat) : Except Fault Argument := do
  m.valueOf (← m.state.heap.root addr)

def argument (m : Machine) (arity index : Nat) : Except Fault Argument := do
  m.valueAt (← m.argumentAddress arity index)

def constantArgument (m : Machine) (arity index : Nat) : Except Fault (Option String) := do
  match ← m.argument arity index with
  | .const name => return some name
  | .var _ => return none

def setArgument (arity index : Nat) (name : String) (m : Machine) : Except Fault Machine := do
  let addr ← m.argumentAddress arity index
  let root ← m.state.heap.root addr
  if ← m.state.heap.isFree root then
    let (id, symbols) ← m.symbols.intern name
    let heap ← m.state.heap.write root (.const id)
    let heap ← heap.collapse addr root
    return { m with symbols, state := { m.state with heap } }
  else
    throw (.notFree root "set_arg")

def lastArguments (m : Machine) (arity : Nat) : (count : Nat) → Except Fault (List Argument)
  | 0 => return []
  | count + 1 => do
    let arg ← m.argument arity (arity - count)
    return arg :: (← lastArguments m arity count)

def waitingGoal (m : Machine) : Except Fault Goal := do
  match m.state.jumpTo with
  | none => throw .noJumpTarget
  | some label =>
    let sig ← Signature.ofLabel? label
    return ⟨sig.functor, ← m.lastArguments sig.arity sig.arity⟩

end Machine

def Exec.setArgument (arity index : Nat) (name : String) : Exec Unit := do
  let addr ← read (·.argumentAddress arity index)
  let root ← root addr
  if ← isFree root then
    bindConstant name addr root
  else
    throw (.notFree root "set_arg")

end HornMachine
