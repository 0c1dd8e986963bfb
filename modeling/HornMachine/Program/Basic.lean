import HornMachine.Fault
import HornMachine.Instruction

/-!
This module contains programs: a sequence of instructions together with the places where the clauses
of a predicate begin.
-/

namespace HornMachine

/--
Compiled code. An entry `(label, addr)` of `clauses` says that a clause of the predicate `label` begins
at `addr`; clauses are tried in the order of their entries.
-/
structure Program where
  code : Array Instruction := #[]
  clauses : Array (String × Nat) := #[]
deriving DecidableEq

namespace Program

def size (program : Program) : Nat :=
  program.code.size

def push (program : Program) (instr : Instruction) : Program :=
  { program with code := program.code.push instr }

def append (program : Program) (block : List Instruction) : Program :=
  { program with code := program.code ++ block }

def addClause (program : Program) (label : String) (addr : Nat) : Program :=
  { program with clauses := program.clauses.push (label, addr) }

def hasLabel (program : Program) (label : String) : Bool :=
  program.clauses.any fun (l, _) => l == label

def addresses? (program : Program) (label : String) : Option (List Nat) :=
  match program.clauses.toList.filterMap fun (l, addr) => if l = label then some addr else none with
  | [] => none
  | addrs => some addrs

def instruction (program : Program) (addr : Nat) : Except Fault Instruction :=
  match program.code[addr]? with
  | some instr => .ok instr
  | none => .error (.invalidAddress addr)

theorem instruction_eq_ok {program : Program} {addr : Nat} {instr : Instruction}
    (h : program.instruction addr = .ok instr) : program.code[addr]? = some instr := by
  unfold instruction at h
  split at h <;> simp_all

theorem lt_size_of_instruction {program : Program} {addr : Nat} {instr : Instruction}
    (h : program.instruction addr = .ok instr) : addr < program.size := by
  have := instruction_eq_ok h
  simp only [Array.getElem?_eq_some_iff] at this
  exact this.1

end Program

end HornMachine
