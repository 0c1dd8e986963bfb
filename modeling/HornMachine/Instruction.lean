import HornMachine.State.Basic

/-!
This module contains the instructions of the machine. Registers and heap offsets count back from the
top of their stack: -1 is the top, -2 the one below it.
-/

namespace HornMachine

inductive Instruction where
  /-- Puts unset registers on top of the register stack, or takes some away if `count` is negative. -/
  | grow (count : Int)
  /-- Waits for a call to be answered. -/
  | callp (label : String)
  /-- Goes back to the caller, or completes the state if there is none. -/
  | returnp
  /-- Puts a constant on the heap. -/
  | pushConst (constant : String)
  /-- Puts a free cell on the heap and its address into a register. -/
  | pushFreeVar (reg : Int)
  /-- Puts the value of a register on the heap. -/
  | pushBoundVar (reg : Int)
  /-- Unifies a cell with a constant. -/
  | unifyConst (constant : String) (offset : Int)
  /-- Puts the address of a cell into a register. -/
  | initFreeVar (reg : Int) (offset : Int)
  /-- Unifies a cell with the value of a register. -/
  | unifyBoundVar (reg : Int) (offset : Int)
  /-- Empties the feature stack. -/
  | fclear
  /-- Starts a feature that is meant to have `arity` arguments. -/
  | fpushStart (functor : String) (arity : Nat)
  /-- Gives the newest feature a constant as its next argument. -/
  | fpushConst (constant : String)
  /-- Gives the newest feature the constant that a register leads to as its next argument. -/
  | fpushBoundVar (reg : Int)
  /-- Reports the features on the feature stack. -/
  | freport
  /-- Puts all features on the feature stack that a search from `addr` reports. -/
  | ffindall (addr : Nat)
deriving DecidableEq, Repr

namespace Instruction

/--
Register counts are modulo 2^64, so a count of 2^63 or more takes registers away.
-/
def allocate (count : Nat) : Instruction :=
  .grow (wrapped count)

theorem allocate_eq_grow {count : Nat} (h : count < 9223372036854775808) : allocate count = .grow count := by
  have hrest : count % 18446744073709551616 = count := Nat.mod_eq_of_lt (by omega)
  simp only [allocate, wrapped, hrest, if_pos h]

/--
Whether an instruction only builds features. Such instructions are passed over where no features are
computed.
-/
def isFeature : Instruction → Bool
  | fclear | fpushStart .. | fpushConst .. | fpushBoundVar .. | freport | ffindall .. => true
  | _ => false

def text : Instruction → String
  | grow count => s!"allocate {count % 18446744073709551616}"
  | callp label => s!"callp {label}"
  | returnp => "returnp"
  | pushConst constant => s!"pushconst {constant}"
  | pushFreeVar reg => s!"pushfreevar {reg}"
  | pushBoundVar reg => s!"pushboundvar {reg}"
  | unifyConst constant offset => s!"unifyconst {constant}, {offset}"
  | initFreeVar reg offset => s!"initfreevar {reg}, {offset}"
  | unifyBoundVar reg offset => s!"unifyboundvar {reg}, {offset}"
  | fclear => "fclear"
  | fpushStart functor arity => s!"fpushstart {functor}, {arity}"
  | fpushConst constant => s!"fpushconst {constant}"
  | fpushBoundVar reg => s!"fpushboundvar {reg}"
  | freport => "freport"
  | ffindall addr => s!"ffindall {addr}"

instance : ToString Instruction := ⟨text⟩

end Instruction

end HornMachine
