import HornMachine.Text.Quoted

/-!
This module contains the causes for which an operation of the library can fail. A clause that simply
does not apply is no fault: it leaves the state `failed`.
-/

namespace HornMachine

/--
Why an operation did not answer. An `operation` is the name of the instruction or accessor at fault.
-/
inductive Fault where
  /-- No clause and no plugin answers calls to this label. -/
  | unknownPredicate (label : String)
  | notFree (addr : Nat) (operation : String)
  | neitherFreeNorConstant (addr : Nat) (operation : String)
  | notConstant (addr : Nat) (operation : String)
  | invalidRegister (reg : Int)
  | unsetRegister (reg : Int)
  | invalidHeapOffset (offset : Int) (heapSize : Nat)
  | heapOutOfRange (addr : Nat) (heapSize : Nat)
  | invalidAddress (addr : Nat)
  | invalidArgument (arity : Nat) (index : Nat)
  | emptyFeatureStack (operation : String)
  | findallDepthExceeded (limit : Nat)
  | malformedLabel (label : String)
  | unknownSymbol (id : Nat)
  | noJumpTarget
  /-- A feature of a clause names a variable that does not occur in its head. -/
  | unboundFeatureVariable (name : String)
  | badConfig
  /-- An interner has handed out all of its ids. -/
  | poolExhausted (entries : Nat)
  /-- The references from this address run in a circle. -/
  | cyclicReference (addr : Nat)
  /-- Collections of features are nested inside one another beyond the allowance. -/
  | nestingExceeded
  /-- The goals of a state without frames repeat forever. -/
  | endlessPendingGoals
deriving DecidableEq, Repr

namespace Fault

def message : Fault → String
  | unknownPredicate label => s!"unknown predicate {label}"
  | notFree addr operation => s!"expected a free cell at {addr} in {operation}"
  | neitherFreeNorConstant addr operation =>
    s!"cell {addr} is neither free nor constant in {operation}"
  | notConstant addr operation => s!"expected a constant at {addr} in {operation}"
  | invalidRegister reg => s!"register {reg} must be negative and within the register stack"
  | unsetRegister reg => s!"register {reg} read before it was set"
  | invalidHeapOffset offset heapSize =>
    s!"relative heap index {offset} is invalid for a heap of size {heapSize}"
  | heapOutOfRange addr heapSize => s!"heap address {addr} out of range (heap size {heapSize})"
  | invalidAddress addr => s!"no instruction at program address {addr}"
  | invalidArgument arity index =>
    s!"argument {index} of an arity-{arity} call is out of range"
  | emptyFeatureStack operation => s!"{operation} with an empty feature stack"
  | findallDepthExceeded limit => s!"depth bound {limit} exceeded in feature computation"
  | malformedLabel label => s!"malformed call label {Text.quoted label}"
  | unknownSymbol id => s!"no symbol for constant id {id}"
  | noJumpTarget => "state is paused without a jump target"
  | unboundFeatureVariable name => s!"feature variable {name} is not bound by the rule head"
  | badConfig => "invalid configuration"
  | poolExhausted entries => s!"pool exhausted after {entries} entries"
  | cyclicReference addr => s!"the references from heap address {addr} run in a circle"
  | nestingExceeded => "feature computations are nested too deeply"
  | endlessPendingGoals => "the pending goals of a state without frames never end"

end Fault

theorem Except.bind_eq_ok {x : Except ε α} {f : α → Except ε β} {b : β}
    : x >>= f = .ok b ↔ ∃ a, x = .ok a ∧ f a = .ok b := by
  cases x <;> simp [bind, Except.bind]

end HornMachine
